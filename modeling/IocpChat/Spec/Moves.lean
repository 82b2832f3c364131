import IocpChat.Spec.Server

/-! What a step of the server is made of: the acts of its packet handlers, the moves of
`RecvCompletion` around them, and those of the other handlers. -/

namespace IocpChat

open SendPath (popBatch)
open Relation (ReflTransGen)

/-- The Session carries a connection that was not closed. -/
def Server.Open (σ : Server) (s : ℕ) : Prop :=
  (σ.sessions s).closing = false ∧ (σ.sessions s).id ≠ 0

/-- What a packet handler itself leaves in the record. -/
def Effect.isNote : Effect → Bool
  | .log .. | .broadcast .. => true
  | _ => false

/-- The batch was handed to a `WSASend` that returned `ok`. -/
def Server.handed (σ : Server) (t : ℕ) (ok : Bool) : Server :=
  let x := σ.sessions t
  (σ.popSend t).emit (.wsaSend t x.id x.sock (popBatch x.sendQueue).1 ok)

/-- The `WSASend` is in flight. -/
def Server.posted (σ : Server) (t : ℕ) : Server :=
  let x := σ.sessions t
  { σ.handed t true with sends := σ.sends ++ [⟨t, x.id, (popBatch x.sendQueue).1⟩] }

/-- The queue of an open Session with one message more. -/
def Session.queued (x : Session) (data : List UInt8) : List Msg := x.sendQueue ++ [⟨x.id, data⟩]

/-- One act of a handler that may close Session `cur` and note what `N` allows. -/
inductive Act (env : Env) (cur : Option ℕ) (N : Effect → Prop) : Server → Server → Prop
  | note (σ : Server) (e : Effect) (he : N e) : Act env cur N σ (σ.emit e)
  | push (σ : Server) (t : ℕ) (data : List UInt8) (ho : σ.Open t) :
      Act env cur N σ (σ.push t data)
  | claim (σ : Server) (t : ℕ) (ho : σ.Open t) : Act env cur N σ (σ.setSending t true)
  | idle (σ : Server) (t : ℕ) (ho : σ.Open t) (hq : (σ.sessions t).sendQueue = []) :
      Act env cur N σ (σ.setSending t false)
  | hand (σ : Server) (t : ℕ) (ho : σ.Open t) : Act env cur N σ (σ.posted t)
  | fail (σ : Server) (t : ℕ) (ho : σ.Open t) (hf : env.wsaSendFails (σ.popSend t) t = true) :
      Act env cur N σ (closeSession t (σ.handed t false))
  | close (σ : Server) (s : ℕ) (hs : cur = some s) (ho : σ.Open s) :
      Act env cur N σ (closeSession s σ)

/-- What `RecvCompletion` itself leaves in the record. -/
def Effect.isRead : Effect → Bool
  | .log .. | .received .. | .packet .. | .malformed .. => true
  | _ => false

/-- One move of `RecvCompletion` for Session `cur`, before it posts a receive. -/
inductive Work (env : Env) (cur : ℕ) : Server → Server → Prop
  | act {σ σ' : Server} (h : Act env (some cur) (fun e => e.isNote = true) σ σ') :
      Work env cur σ σ'
  | ring (σ : Server) (r : RingBuffer) : Work env cur σ (σ.setRx cur r)
  | mark (σ : Server) (e : Effect) (he : e.isRead = true) : Work env cur σ (σ.emit e)

/-- The state with a receive of Session `s` posted. -/
def Server.recvPosted (σ : Server) (s : ℕ) : Server :=
  let x := σ.sessions s
  { σ.emit (.wsaRecv s x.id true) with recvs := σ.recvs ++ [⟨s, x.id, x.rxBuf, none⟩] }

/-- Another state of the accepts and the closed sockets. -/
def Server.side (σ : Server) (accepts : AcceptSide) (closedSocks : List ℕ) : Server :=
  { σ with accepts, closedSocks }

/-- Session `s` was taken from the pool for a new connection. -/
def connect (s : ℕ) (free : List ℕ) (acceptSock : Option ℕ) (σ : Server) : Server :=
  let x := σ.sessions s
  assign s acceptSock { σ.set s { x with rx := x.rx.clear, closing := false } with free }

/-- One move of the server; `C` is what an accept needs of the Session it takes. -/
inductive Move (env : Env) (C : Server → ℕ → Prop) : Server → Server → Prop
  | work {cur : ℕ} {σ σ' : Server} (h : Work env cur σ σ') : Move env C σ σ'
  | recvPosted (σ : Server) (s : ℕ) (ho : σ.Open s) : Move env C σ (σ.recvPosted s)
  | recvRefused (σ : Server) (s : ℕ) (ho : σ.Open s) :
      Move env C σ (closeSession s (σ.emit (.wsaRecv s (σ.sessions s).id false)))
  | side (σ : Server) (acc : AcceptSide) (socks : List ℕ) : Move env C σ (σ.side acc socks)
  | connect (σ : Server) (s : ℕ) (free : List ℕ) (sock : Option ℕ) (hf : σ.free = s :: free)
      (hC : C σ s) : Move env C σ (connect s free sock σ)
  | fill (σ : Server) (i : ℕ) (op : RecvOp) (data : List UInt8) (hop : σ.recvs[i]? = some op)
      (hd : op.data = none) (hlen : data.length ≤ bufferSize) : Move env C σ (σ.fill i op data)
  | dequeueRecv (σ : Server) (i : ℕ) : Move env C σ (σ.dequeueRecv i)
  | dequeueSend (σ : Server) (i : ℕ) : Move env C σ (σ.dequeueSend i)

abbrev Moves (env : Env) (C : Server → ℕ → Prop) : Server → Server → Prop :=
  ReflTransGen (Move env C)

/-- If the event is an accept, `C` holds of the Session on top of the pool. -/
def AcceptsFrom (C : Server → ℕ → Prop) (σ : Server) : Event → Prop
  | .accept _ _ => ∀ s ∈ σ.free.head?, C σ s
  | _ => True

instance {C : Server → ℕ → Prop} [∀ σ s, Decidable (C σ s)] : ∀ σ e, Decidable (AcceptsFrom C σ e)
  | σ, .accept _ _ => inferInstanceAs (Decidable (∀ s ∈ σ.free.head?, C σ s))
  | _, .fill _ _ | _, .recv _ | _, .send _ | _, .enqueueSend _ _ | _, .broadcast _ _
  | _, .closeSession _ => isTrue trivial

end IocpChat
