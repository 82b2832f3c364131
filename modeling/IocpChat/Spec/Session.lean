import Mathlib.Data.List.AList
import IocpChat.Spec.Framer

/-! What `IOCP_EchoServer` keeps: the Sessions and the pools they and their
buffers come from, the table of connections, the I/O in flight, and a record of
what the server did. Completion handlers run one at a time. -/

namespace IocpChat

/-- A message in a `sendQueue`. -/
structure Msg where
  /-- History: the id of the Session when `EnqueueSend` pushed the message. -/
  conn : ℕ
  bytes : List UInt8
  deriving DecidableEq

/-- `Session`; a socket or a buffer is a number, `none` is `INVALID_SOCKET` or null. -/
structure Session where
  sock : Option ℕ
  rxBuf : Option ℕ
  rx : RingBuffer
  sendQueue : List Msg
  sending : Bool
  closing : Bool
  id : ℕ

def Session.new : Session :=
  ⟨none, none, RingBuffer.new (64 * 1024), [], false, false, 0⟩

/-- `NetConfig::BUFFER_SIZE` -/
def bufferSize : ℕ := 4096

/-- `BufferPool`: the free blocks, last one first, and the next block `new` gives. -/
structure BufferPool where
  pool : List ℕ
  fresh : ℕ
  deriving DecidableEq

namespace BufferPool

def new (initialCount : ℕ) : BufferPool := ⟨(List.range initialCount).reverse, initialCount⟩

def allocate (p : BufferPool) : ℕ × BufferPool :=
  match p.pool with
  | [] => (p.fresh, ⟨[], p.fresh + 1⟩)
  | buf :: pool => (buf, { p with pool })

def release (p : BufferPool) (buf : ℕ) : BufferPool := { p with pool := buf :: p.pool }

end BufferPool

/-- A `WSARecv` whose completion was not dequeued yet. -/
structure RecvOp where
  sess : ℕ
  /-- History: the id of the Session when the operation was posted. -/
  conn : ℕ
  buf : Option ℕ
  /-- The bytes the kernel stored in the buffer, once the operation completed. -/
  data : Option (List UInt8)
  deriving DecidableEq

/-- A `WSASend` whose completion was not dequeued yet. -/
structure SendOp where
  sess : ℕ
  /-- History: the id of the Session when the operation was posted. -/
  conn : ℕ
  batch : List Msg
  deriving DecidableEq

/-- An `OverlappedEx` of an `AcceptEx` in flight. -/
structure AcceptOp where
  ov : ℕ
  acceptSock : Option ℕ
  deriving DecidableEq

/-- What `PostAccept` keeps of its attempts; sockets and `OverlappedEx` are numbered. -/
structure AcceptSide where
  inFlight : List AcceptOp
  deleted : List ℕ
  nextSock : ℕ
  nextOv : ℕ
  deriving DecidableEq

inductive LogLevel
  | info
  | warn
  | error
  deriving DecidableEq

/-- What the server did, with the Session and the id it carried. -/
inductive Effect
  | log (level : LogLevel) (text : List UInt8)
  | accepted (s id : ℕ)
  /-- `RecvCompletion` passes the bytes of a receive to `rx.append`. -/
  | received (s id : ℕ) (bytes : List UInt8)
  /-- `RecvCompletion` calls `OnPacket`. -/
  | packet (s id : ℕ) (bytes : List UInt8)
  /-- `RecvCompletion` closes the session because of a malformed packet. -/
  | malformed (s id : ℕ)
  /-- A packet handler calls `Broadcast` for the sender of the packet. -/
  | broadcast (s id : ℕ) (bytes : List UInt8)
  | wsaRecv (s id : ℕ) (ok : Bool)
  | wsaSend (s id : ℕ) (sock : Option ℕ) (batch : List Msg) (ok : Bool)
  /-- `CloseSession` takes effect. -/
  | closed (s id : ℕ)
  deriving DecidableEq

structure Server where
  /-- The objects of `SessionPool::pool_`. -/
  sessions : ℕ → Session
  /-- `SessionPool::free_`, top first. -/
  free : List ℕ
  bufferPool : BufferPool
  sessionTable : AList fun _ : ℕ => ℕ
  sessionIdGen : ℕ
  /-- An `int`; every session has a ring of 64 KiB, so it does not wrap. -/
  statCurConn : ℤ
  accepts : AcceptSide
  closedSocks : List ℕ
  /-- The contents of the blocks of `bufferPool`. -/
  mem : ℕ → ℕ → UInt8
  recvs : List RecvOp
  sends : List SendOp
  trace : List Effect

namespace Server

/-- The constructor of `IOCP_EchoServer`. -/
def new (maxSessions : ℕ) : Server where
  sessions _ := .new
  free := (List.range maxSessions).reverse
  bufferPool := .new 128
  sessionTable := ∅
  sessionIdGen := 1
  statCurConn := 0
  accepts := ⟨[], [], 0, 0⟩
  closedSocks := []
  mem _ _ := 0
  recvs := []
  sends := []
  trace := []

def set (σ : Server) (s : ℕ) (x : Session) : Server :=
  { σ with sessions := Function.update σ.sessions s x }

def emit (σ : Server) (e : Effect) : Server := { σ with trace := σ.trace ++ [e] }

/-- `SessionPool::Acquire` -/
def acquire (σ : Server) : Option (ℕ × Server) :=
  match σ.free with
  | [] => none
  | s :: free =>
    let x := σ.sessions s
    some (s, { σ.set s { x with rx := x.rx.clear, closing := false } with free })

/-- The values of `sessionTable_`. -/
def tabled (σ : Server) : List ℕ := σ.sessionTable.entries.map Sigma.snd

end Server

/-- What lies outside the program: which calls of Winsock fail, depending on all
that has happened, and the order in which `unordered_map` is traversed. -/
structure Env where
  wsaRecvFails : Server → ℕ → Bool
  wsaSendFails : Server → ℕ → Bool
  wsaSocketFails : Server → Bool
  acceptExFails : Server → Bool
  order : Server → List ℕ
  order_perm : ∀ σ, (order σ).Perm σ.tabled

/-- No call fails, and the table is traversed as it lies there. -/
def Env.calm : Env where
  wsaRecvFails _ _ := false
  wsaSendFails _ _ := false
  wsaSocketFails _ := false
  acceptExFails _ := false
  order := Server.tabled
  order_perm _ := .refl _

end IocpChat
