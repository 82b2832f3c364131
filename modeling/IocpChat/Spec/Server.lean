import IocpChat.Spec.PacketHandler

/-! The completion handlers of `IOCP_EchoServer`, and the server as a machine: the
kernel completes receives, a worker dequeues completions of accepts, receives
and sends one at a time, and the interface may be called in between. -/

namespace IocpChat

open Circular (blit)

variable (env : Env)

def postRecv (s : ℕ) (σ : Server) : Server :=
  let x := σ.sessions s
  if x.closing then σ
  else
    let ok := !env.wsaRecvFails σ s
    let σ := σ.emit (.wsaRecv s x.id ok)
    if ok then { σ with recvs := σ.recvs ++ [⟨s, x.id, x.rxBuf, none⟩] } else closeSession s σ

/-- `session->rx = rx` -/
def Server.setRx (σ : Server) (s : ℕ) (rx : RingBuffer) : Server :=
  σ.set s { σ.sessions s with rx }

/-- The loop of `RecvCompletion` and what follows it; `pkt` is the vector that
`Pop` fills. Every round but the last takes a header out of the ring. -/
def drain (s : ℕ) : ℕ → List UInt8 → Server → Server
  | 0, _, σ => σ
  | fuel + 1, pkt, σ =>
    let x := σ.sessions s
    let (r, rx, pkt) := pop x.rx pkt
    let σ := σ.setRx s rx
    match r with
    | .ok => drain s fuel pkt (onPacket env s pkt (σ.emit (.packet s x.id pkt)))
    | .needMore => postRecv env s σ
    | .malformed =>
      let σ := σ.emit (.log .warn (ascii "Malformed packet: id=" ++ decimal x.id))
      closeSession s (σ.emit (.malformed s x.id))

/-- The first `n` bytes of a block, or of nothing. -/
def Server.readMem (σ : Server) (buf : Option ℕ) (n : ℕ) : List UInt8 :=
  (List.range n).map fun i => match buf with
    | some b => σ.mem b i
    | none => 0

/-- `RecvCompletion`; `none` if it reads through a null `rxBuf`. -/
def recvCompletion (s bytes : ℕ) (σ : Server) : Option Server :=
  if bytes = 0 then some (closeSession s σ)
  else
    let x := σ.sessions s
    if x.rxBuf.isNone ∧ 0 < x.rx.writable then none
    else
      let data := σ.readMem x.rxBuf bytes
      let (appended, rx) := x.rx.append data bytes
      let σ := (σ.setRx s rx).emit (.received s x.id data)
      if appended < bytes then
        some (closeSession s
          (σ.emit (.log .warn (ascii "RingBuffer overflow: id=" ++ decimal x.id))))
      else some (drain env s (rx.readable + 1) [] σ)

def sendCompletion (s : ℕ) (σ : Server) : Server := postSend env s σ

/-- `PostAccept`, for as many attempts as there is fuel. -/
def postAccept : ℕ → Server → Option Server
  | 0, _ => none
  | fuel + 1, σ =>
    let acc := σ.accepts
    let acceptSock := if env.wsaSocketFails σ then none else some acc.nextSock
    let op : AcceptOp := ⟨acc.nextOv, acceptSock⟩
    let acc := { acc with
      nextSock := acc.nextSock + acceptSock.toList.length, nextOv := acc.nextOv + 1 }
    if acceptSock.isNone || env.acceptExFails σ then
      postAccept fuel { σ with
        accepts := { acc with deleted := acc.deleted ++ [op.ov] }
        closedSocks := σ.closedSocks ++ acceptSock.toList }
    else some { σ with accepts := { acc with inFlight := acc.inFlight ++ [op] } }

/-- `delete ov` -/
def Server.deleteOv (σ : Server) (ov : ℕ) : Server :=
  { σ with accepts := { σ.accepts with deleted := σ.accepts.deleted ++ [ov] } }

/-- `AcceptCompletion` up to the counters: the Session becomes a connection. -/
def assign (s : ℕ) (acceptSock : Option ℕ) (σ : Server) : Server :=
  let (rxBuf, bufferPool) := σ.bufferPool.allocate
  let x := σ.sessions s
  let id := σ.sessionIdGen
  { σ.set s { x with sock := acceptSock, id, sending := false, closing := false, rx := x.rx.clear,
                     rxBuf := some rxBuf } with
    bufferPool
    sessionIdGen := id + 1
    sessionTable := σ.sessionTable.insert id s
    statCurConn := σ.statCurConn + 1
    trace := σ.trace ++ [.accepted s id] }

/-- `AcceptCompletion`; `none` if its `PostAccept` uses up the fuel. -/
def acceptCompletion (fuel : ℕ) (op : AcceptOp) (σ : Server) : Option Server :=
  match σ.acquire with
  | none => do
    let σ ← postAccept env fuel { σ with closedSocks := σ.closedSocks ++ op.acceptSock.toList }
    return σ.deleteOv op.ov
  | some (s, σ) => do
    let σ ← postAccept env fuel (postRecv env s (assign s op.acceptSock σ))
    return (onClientConnected env s σ).deleteOv op.ov

/-- The loop of `Start` that posts the accepts. -/
def postAccepts (fuel : ℕ) : ℕ → Server → Option Server
  | 0, σ => some σ
  | n + 1, σ => do postAccepts fuel n (← postAccept env fuel σ)

/-- A server that has started: what `Start` leaves when it returns. -/
def start (maxSessions acceptOutstanding fuel : ℕ) : Option Server :=
  postAccepts env fuel acceptOutstanding (.new maxSessions)

inductive Event
  /-- A worker dequeues the completion of an accept in flight. -/
  | accept (i fuel : ℕ)
  /-- The kernel completes a receive with at most `bufferSize` bytes. -/
  | fill (i : ℕ) (data : List UInt8)
  /-- A worker dequeues the completion of a receive. -/
  | recv (i : ℕ)
  /-- A worker dequeues the completion of a send. -/
  | send (i : ℕ)
  /-- `EnqueueSend` is called for a Session that has been accepted. -/
  | enqueueSend (s : ℕ) (data : List UInt8)
  | broadcast (data : List UInt8) (exclude : Option ℕ)
  /-- `CloseSession` is called for a Session that has been accepted. -/
  | closeSession (s : ℕ)
  deriving DecidableEq

/-- The kernel stores the bytes of a completed receive. -/
def Server.fill (σ : Server) (i : ℕ) (op : RecvOp) (data : List UInt8) : Server :=
  { σ with
    mem := match op.buf with
      | some b => Function.update σ.mem b (blit (σ.mem b) 0 data)
      | none => σ.mem
    recvs := σ.recvs.set i { op with data := some data } }

def Server.dequeueAccept (σ : Server) (i : ℕ) : Server :=
  { σ with accepts := { σ.accepts with inFlight := σ.accepts.inFlight.eraseIdx i } }

def Server.dequeueRecv (σ : Server) (i : ℕ) : Server := { σ with recvs := σ.recvs.eraseIdx i }

def Server.dequeueSend (σ : Server) (i : ℕ) : Server := { σ with sends := σ.sends.eraseIdx i }

/-- `WorkerThread` dispatches a completion; its status is not looked at. -/
def step (σ : Server) : Event → Option Server
  | .accept i fuel =>
    match σ.accepts.inFlight[i]? with
    | none => none
    | some op => acceptCompletion env fuel op (σ.dequeueAccept i)
  | .fill i data =>
    match σ.recvs[i]? with
    | none => none
    | some op =>
      if op.data.isNone ∧ data.length ≤ bufferSize then some (σ.fill i op data) else none
  | .recv i =>
    match σ.recvs[i]? with
    | some ⟨s, _, _, some data⟩ => recvCompletion env s data.length (σ.dequeueRecv i)
    | _ => none
  | .send i =>
    match σ.sends[i]? with
    | none => none
    | some op => some (sendCompletion env op.sess (σ.dequeueSend i))
  | .enqueueSend s data =>
    if (σ.sessions s).id = 0 then none else some (enqueueSend env s data σ)
  | .broadcast data exclude => some (broadcast env data exclude σ)
  | .closeSession s => if (σ.sessions s).id = 0 then none else some (closeSession s σ)

end IocpChat
