import IocpChat.Spec.Stream

/-! What is broadcast for a client, what a broadcast does, and what becomes of a connection that
is closed. -/

namespace IocpChat

open Framed

/-- The dispatcher takes the packet to the handler of `t`, whose packets have `size` bytes. -/
def dispatches (t : PacketType) (size : ℕ) (packet : List UInt8) : Bool :=
  let h := PacketHeader.ofBytes packet
  kHeaderSize ≤ packet.length && isHeaderValid h && h.size.toNat ≤ packet.length &&
    h.id = t.toId && h.size.toNat = size

def isChat (packet : List UInt8) : Bool := dispatches .chatMessage ChatMessagePacket.size packet

def isExit (packet : List UInt8) : Bool :=
  dispatches .exit (kHeaderSize + PKExitBody.layout.size) packet

/-- What the other clients are sent because of a packet. -/
def announce (packet : List UInt8) : Option (List UInt8) :=
  if isChat packet then some (chatRelay (ChatMessagePacket.ofBytes packet).safe)
  else if isExit packet then some (exitNotice (PKExit.new.deserialize packet))
  else none

/-- A handler has logged a packet and is about to broadcast for its sender. -/
def Server.announcing (σ : Server) (s : ℕ) (text : List UInt8) : Option (List UInt8) → Server
  | some bytes => (σ.emit (.log .info text)).emit (.broadcast s (σ.sessions s).id bytes)
  | none => σ

/-- The effect concerns connection `k` of Session `s`. -/
def Effect.concerns (s k : ℕ) : Effect → Bool
  | .log .. => false
  | .accepted t j | .received t j _ | .packet t j _ | .malformed t j | .broadcast t j _
  | .wsaRecv t j _ | .wsaSend t j _ _ _ | .closed t j => t = s ∧ j = k

/-- Once a connection was closed, nothing concerns it any more. -/
def LastWord (trace : List Effect) : Prop :=
  trace.Pairwise fun e e' => ∀ s k, e = .closed s k → e'.concerns s k = false

/-- What is broadcast for the sender of a packet. -/
def Effect.announced (s k : ℕ) : Effect → Option (List UInt8)
  | .broadcast t j bytes => if t = s ∧ j = k then some bytes else none
  | _ => none

/-- What the other clients were sent because of connection `k` of Session `s`. -/
def Server.announced (σ : Server) (s k : ℕ) : List (List UInt8) :=
  σ.trace.filterMap (Effect.announced s k)

/-- How the server changed for Session `t`, which is now `x`: the sends in flight and the
record have `ops` and `es` in addition, and its entry has left the table if it was closed. -/
structure Becomes (t : ℕ) (σ σ' : Server) (x : Session) (ops : List SendOp) (es : List Effect) :
    Prop where
  session : σ'.sessions t = x
  entry : ∀ k, σ'.sessionTable.lookup k = some t ↔
    σ.sessionTable.lookup k = some t ∧ ∀ j, Effect.closed t j ∉ es
  sends : σ'.sends.filter (·.sess = t) = σ.sends.filter (·.sess = t) ++ ops
  trace : ∀ k, σ'.trace.filter (Effect.concerns t k) = (σ.trace ++ es).filter (Effect.concerns t k)
  mem : σ'.mem = σ.mem

/-- Nothing changed for Session `t`. -/
abbrev Spared (t : ℕ) (σ σ' : Server) : Prop := Becomes t σ σ' (σ.sessions t) [] []

/-- What a broadcast does to an open Session `t`. While a send is in flight, the message is
queued; otherwise it stands behind the other messages in a batch, or behind those that did not
fit into the batch; and the Session is closed if `WSASend` fails for that batch. -/
inductive Reached (env : Env) (t : ℕ) (data : List UInt8) (σ σ' : Server) : Prop
  | queued (hbusy : (σ.sessions t).sending = true)
      (h : Becomes t σ σ' { σ.sessions t with sendQueue := (σ.sessions t).queued data } [] [])
  | posted (batch rest : List Msg) (hidle : (σ.sessions t).sending = false)
      (hsplit : batch ++ rest = (σ.sessions t).queued data)
      (h : Becomes t σ σ' { σ.sessions t with sendQueue := rest, sending := true }
        [⟨t, (σ.sessions t).id, batch⟩]
        [.wsaSend t (σ.sessions t).id (σ.sessions t).sock batch true])
  | failed (batch rest : List Msg) (hidle : (σ.sessions t).sending = false)
      (hsplit : batch ++ rest = (σ.sessions t).queued data)
      (hfails : ∃ τ, env.wsaSendFails τ t = true)
      (h : Becomes t σ σ' { σ.sessions t with
          sendQueue := rest, sending := true, closing := true, rxBuf := none } []
        [.wsaSend t (σ.sessions t).id (σ.sessions t).sock batch false,
          .closed t (σ.sessions t).id])

/-! ### After an `Exit` -/

/-- A `WSASend` fails at once only for a Session without a complete packet in its ring. -/
def FailsWaiting (env : Env) : Prop :=
  ∀ σ s, env.wsaSendFails σ s = true → packetVerdict (σ.sessions s).rx.content = .more

/-- The packets up to the first `Exit`. -/
def upToExit : List (List UInt8) → List (List UInt8)
  | [] => []
  | packet :: frames => if isExit packet then [packet] else packet :: upToExit frames

/-- Behind the first `Exit` of a stream there is at most an incomplete packet. -/
def exitLast (bytes : List UInt8) : Bool :=
  upToExit (packets bytes).frames = (packets bytes).frames &&
    !((packets bytes).frames.any isExit && (packets bytes).bad)

/-- A receive that brings bytes was posted for the connection its Session carries,
and leaves at most an incomplete packet in the ring behind an `Exit`. -/
def ClosesLast (σ : Server) : Event → Prop
  | .recv i => ∀ op ∈ σ.recvs[i]?, ∀ data ∈ op.data, data = [] ∨
      (σ.sessions op.sess).id = op.conn ∧ exitLast ((σ.sessions op.sess).rx.content ++
        σ.readMem (σ.sessions op.sess).rxBuf data.length) = true
  | _ => True

instance : ∀ σ e, Decidable (ClosesLast σ e)
  | σ, .recv i => inferInstanceAs (Decidable (∀ op ∈ σ.recvs[i]?, ∀ data ∈ op.data, data = [] ∨
      (σ.sessions op.sess).id = op.conn ∧ exitLast ((σ.sessions op.sess).rx.content ++
        σ.readMem (σ.sessions op.sess).rxBuf data.length) = true))
  | _, .accept _ _ | _, .fill _ _ | _, .send _ | _, .enqueueSend _ _ | _, .broadcast _ _
  | _, .closeSession _ => isTrue trivial

/-- What the other clients are told because of a stream: an `Exit` is the last packet
that counts. -/
def announcements (bytes : List UInt8) : List (List UInt8) :=
  (upToExit (packets bytes).frames).filterMap announce

/-- An `Exit` of connection `k` of Session `s` was received as a whole. -/
def Server.Exited (σ : Server) (s k : ℕ) : Prop :=
  ∃ packet ∈ (packets (σ.stream s k)).frames, isExit packet = true

/-- Nothing concerns a connection after it was closed. What the others are told because
of a client whose whole stream is `bytes` is `announcements bytes`, in part and, once
all of it or an `Exit` was received, as a whole: it does not depend on the cutting. -/
structure SilentAfterClose (σ : Server) : Prop where
  order : LastWord σ.trace
  told : ∀ s k bytes, σ.stream s k <+: bytes → σ.announced s k <+: announcements bytes
  whole : ∀ s k bytes, σ.stream s k <+: bytes → σ.stream s k = bytes ∨ σ.Exited s k →
    σ.announced s k = announcements bytes

end IocpChat
