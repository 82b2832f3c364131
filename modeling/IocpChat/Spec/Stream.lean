import IocpChat.Spec.Moves

/-! The stream of each connection, what `RecvCompletion` makes of it, and what the stream format
makes of it. -/

namespace IocpChat

open Framed

/-- What `RecvCompletion` does with a piece of the stream. -/
inductive Delivery
  /-- It passes a packet to `OnPacket`. -/
  | packet (bytes : List UInt8)
  /-- It closes the session as malformed. -/
  | malformed
  deriving DecidableEq

/-- The bytes a receive brought for connection `k` of Session `s`. -/
def Effect.chunk (s k : ℕ) : Effect → List UInt8
  | .received t j bytes => if t = s ∧ j = k then bytes else []
  | _ => []

def Effect.delivery (s k : ℕ) : Effect → Option Delivery
  | .packet t j bytes => if t = s ∧ j = k then some (.packet bytes) else none
  | .malformed t j => if t = s ∧ j = k then some .malformed else none
  | _ => none

/-- The bytes received so far for connection `k` of Session `s`. -/
def Server.stream (σ : Server) (s k : ℕ) : List UInt8 := σ.trace.flatMap (Effect.chunk s k)

def Server.deliveries (σ : Server) (s k : ℕ) : List Delivery :=
  σ.trace.filterMap (Effect.delivery s k)

/-- What the stream format makes of the bytes received so far. -/
def reference (bytes : List UInt8) : List Delivery :=
  (packets bytes).frames.map .packet ++ if (packets bytes).bad then [.malformed] else []

/-- The packet handler gets what the reference parser makes of the stream of connection
`k` of Session `s`; a malformed one is closed, and of any other nothing is lost. -/
structure Refines (σ : Server) (s k : ℕ) : Prop where
  delivered : σ.deliveries s k = reference (σ.stream s k)
  closed : Delivery.malformed ∈ σ.deliveries s k → ¬(σ.Open s ∧ (σ.sessions s).id = k)
  kept : σ.Open s → (σ.sessions s).id = k →
    (packets (σ.stream s k)).frames.flatten ++ (σ.sessions s).rx.content = σ.stream s k

/-! ### A receive -/

/-- How the loop of `RecvCompletion` ends: the packets it passed on, the last result of
`Pop`, and the state `Pop` returned it in; `none` if the rounds are used up. -/
def drainEnd (env : Env) (s : ℕ) : ℕ → List UInt8 → Server → Option (ℕ × PopResult × Server)
  | 0, _, _ => none
  | rounds + 1, pkt, σ =>
    let x := σ.sessions s
    let (r, rx, pkt) := pop x.rx pkt
    let σ := σ.setRx s rx
    match r with
    | .ok => (drainEnd env s rounds pkt (onPacket env s pkt (σ.emit (.packet s x.id pkt)))).map
        fun e => (e.1 + 1, e.2)
    | .needMore => some (0, .needMore, σ)
    | .malformed => some (0, .malformed, σ)

/-- Fewer bytes than a header, or than the header announces. -/
def Waiting (bytes : List UInt8) : Prop :=
  bytes.length < kHeaderSize ∨ bytes.length < (PacketHeader.ofBytes bytes).size.toNat

/-- Session `s` is open and its receive is the `i`-th one in flight. -/
structure Ready (σ : Server) (s i : ℕ) : Prop where
  opened : σ.Open s
  posted : ∃ k, σ.recvs[i]? = some ⟨s, k, (σ.sessions s).rxBuf, none⟩

/-- The bytes the kernel stores in a step. -/
def Event.filled : Event → Option (List UInt8)
  | .fill _ data => some data
  | _ => none

end IocpChat
