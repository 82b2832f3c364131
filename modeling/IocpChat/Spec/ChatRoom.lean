import IocpChat.Lib.Room
import IocpChat.Spec.Announce
import IocpChat.Spec.Dispatch

/-! The chat as a room. A connection is a Session with the id it carried: it joins when it
is accepted and leaves when it is closed, and what its packets ask for is done at once, with
no queue and no send that is waited for. -/

namespace IocpChat

/-- A Session and the id of one of its connections. -/
abbrev Conn := ℕ × ℕ

abbrev ChatRoom := Room Conn (List UInt8)

namespace ChatRoom

/-- What a packet of connection `c` asks for. -/
def serve (r : ChatRoom) (c : Conn) (packet : List UInt8) : Handler → ChatRoom
  | .login =>
    let accepted : Bool := packet.getD 4 0 ≠ 0
    r.tell c (PKLoginAck.serialize (.ofFields (UInt64.ofNat c.2) accepted
      (if accepted then [] else ascii "invalid nickname") (Int32.ofInt r.members.card)))
  | .chatMessage => r.publish c (chatRelay (ChatMessagePacket.ofBytes packet).safe)
  | .exit => r.publish c (exitNotice (PKExit.new.deserialize packet))
  | .userCount => r.tell c (PKUserCountAck.serialize (.ofCount (Int32.ofInt r.members.card)))

/-- The room follows what the server records. -/
def follow (r : ChatRoom) : Effect → ChatRoom
  | .accepted s id => (r.join (s, id)).tell (s, id) kAskId
  | .packet s id bytes => (dispatch bytes).elim r (r.serve (s, id) bytes)
  | .closed s id => r.leave (s, id)
  | _ => r

def of (trace : List Effect) : ChatRoom := trace.foldl follow Room.empty

/-- What a connection was told, as messages pushed for it. -/
def mail (r : ChatRoom) (c : Conn) : List Msg := (r.told c).map fun m => ⟨c.2, m.2⟩

end ChatRoom

/-- The messages handed to `WSASend` for connection `k` of Session `s`. -/
def Effect.handedTo (s k : ℕ) : Effect → List Msg
  | .wsaSend t j _ batch _ => if t = s ∧ j = k then batch else []
  | _ => []

def Server.handedTo (σ : Server) (s k : ℕ) : List Msg := σ.trace.flatMap (Effect.handedTo s k)

/-- The server itself, and not its owner, calls the interface. -/
def Event.own : Event → Bool
  | .enqueueSend .. | .broadcast .. => false
  | _ => true

/-- The server does for its connections what the room does. A Session may have messages of
earlier connections in front; apart from them, what was handed to `WSASend` for a connection
is the beginning of what it was told, and the rest waits as long as it is open. -/
structure Server.Serves (σ : Server) (r : ChatRoom) : Prop where
  member : ∀ s k, (s, k) ∈ r.members ↔ σ.Open s ∧ (σ.sessions s).id = k
  count : (r.members.card : ℤ) = σ.statCurConn
  mail : ∀ s k, ∃ stale : List Msg, (∀ m ∈ stale, m.conn < k) ∧
    σ.handedTo s k <+: stale ++ r.mail (s, k) ∧
    (σ.Open s → (σ.sessions s).id = k →
      σ.handedTo s k ++ (σ.sessions s).sendQueue = stale ++ r.mail (s, k))

end IocpChat
