import IocpChat.Spec.Stop
import IocpChat.Lib.Tally

/-! `AcceptCompletion` and `CloseSession` on any number of workers at once: what they do to
the pools, the table and the counter, one access to something shared at a time. A critical
section is one step. The fields of a Session that are not atomic are written together with the
next such access. -/

namespace IocpChat.Workers

/-- The next step of a worker, and the Session it is for. -/
inductive Worker
  | idle
  /-- `AcceptCompletion` has acquired the Session: the socket, and `sessionIdGen_++`. -/
  | number (s : ℕ) (acceptSock : Option ℕ)
  /-- `session->sending = false` -/
  | sending (s : ℕ)
  /-- `session->closing = false`, and `rx` is cleared. -/
  | reopen (s : ℕ)
  | allocate (s : ℕ)
  | insert (s : ℕ)
  | count
  /-- `CloseSession` has set the flag: `closesocket` -/
  | closeSock (s : ℕ)
  | giveBuf (s : ℕ)
  | erase (s : ℕ)
  | uncount (s : ℕ)
  | release (s : ℕ)
  deriving DecidableEq

structure State (n : ℕ) where
  server : Server
  worker : Fin n → Worker

/-- No worker has begun. -/
def init (n maxSessions : ℕ) : State n := ⟨.new maxSessions, fun _ => .idle⟩

inductive Act (n : ℕ)
  /-- The worker calls `AcceptCompletion` for an accept with this socket. -/
  | accept (w : Fin n) (acceptSock : Option ℕ)
  /-- The worker calls `CloseSession` for a Session that has been accepted. -/
  | close (w : Fin n) (s : ℕ)
  /-- The worker takes its next step. -/
  | work (w : Fin n)
  deriving DecidableEq

end IocpChat.Workers

namespace IocpChat.Server

variable (σ : Server) (s : ℕ)

/-- `session->sock = ov->acceptSock; session->id = sessionIdGen_++;` -/
def number (acceptSock : Option ℕ) : Server :=
  { σ.set s { σ.sessions s with sock := acceptSock, id := σ.sessionIdGen } with
    sessionIdGen := σ.sessionIdGen + 1 }

/-- `session->closing = false; session->rx.clear();` -/
def reopen : Server := σ.set s { σ.sessions s with closing := false, rx := (σ.sessions s).rx.clear }

/-- `session->rxBuf = bufferPool_.Allocate();` -/
def takeBuf : Server :=
  { σ.set s { σ.sessions s with rxBuf := some σ.bufferPool.allocate.1 } with
    bufferPool := σ.bufferPool.allocate.2 }

/-- `sessionTable_[session->id] = session;` -/
def insertEntry : Server :=
  { σ with
    sessionTable := σ.sessionTable.insert (σ.sessions s).id s
    trace := σ.trace ++ [.accepted s (σ.sessions s).id] }

/-- `statCurConn_++` -/
def countUp : Server := { σ with statCurConn := σ.statCurConn + 1 }

/-- `statCurConn_--` -/
def countDown : Server := { σ with statCurConn := σ.statCurConn - 1 }

/-- The flag of `CloseSession`, which was not set. -/
def flag : Server := σ.set s { σ.sessions s with closing := true }

/-- `closesocket(session->sock)` -/
def closeSock : Server := { σ with closedSocks := σ.closedSocks ++ (σ.sessions s).sock.toList }

/-- `if (session->rxBuf) { bufferPool_.Release(session->rxBuf); session->rxBuf = nullptr; }` -/
def giveBuf : Server :=
  { σ.set s { σ.sessions s with rxBuf := none } with
    bufferPool := match (σ.sessions s).rxBuf with
      | some buf => σ.bufferPool.release buf
      | none => σ.bufferPool }

/-- `SessionPool::Release` -/
def release : Server := { σ with free := s :: σ.free, trace := σ.trace ++ [.closed s (σ.sessions s).id] }

end IocpChat.Server

namespace IocpChat.Workers

open Threads (tally)

variable {n : ℕ}

/-- A worker has done its step. -/
def State.goto (x : State n) (w : Fin n) (σ : Server) (p : Worker) : State n :=
  ⟨σ, Function.update x.worker w p⟩

def stepAccept (x : State n) (w : Fin n) (acceptSock : Option ℕ) : State n :=
  let σ := x.server
  match σ.acquire with
  | none => { x with server := { σ with closedSocks := σ.closedSocks ++ acceptSock.toList } }
  | some (s, σ) => x.goto w σ (.number s acceptSock)

def stepClose (x : State n) (w : Fin n) (s : ℕ) : State n :=
  if (x.server.sessions s).closing then x else x.goto w (x.server.flag s) (.closeSock s)

def stepWork (x : State n) (w : Fin n) : Option (State n) :=
  let σ := x.server
  match x.worker w with
  | .idle => none
  | .number s acceptSock => some (x.goto w (σ.number s acceptSock) (.sending s))
  | .sending s => some (x.goto w (σ.setSending s false) (.reopen s))
  | .reopen s => some (x.goto w (σ.reopen s) (.allocate s))
  | .allocate s => some (x.goto w (σ.takeBuf s) (.insert s))
  | .insert s => some (x.goto w (σ.insertEntry s) .count)
  | .count => some (x.goto w σ.countUp .idle)
  | .closeSock s => some (x.goto w (σ.closeSock s) (.giveBuf s))
  | .giveBuf s => some (x.goto w (σ.giveBuf s) (.erase s))
  | .erase s => some (x.goto w (σ.eraseEntry s) (.uncount s))
  | .uncount s => some (x.goto w σ.countDown (.release s))
  | .release s => some (x.goto w (σ.release s) .idle)

def step (x : State n) : Act n → Option (State n)
  | .accept w acceptSock => if x.worker w = .idle then some (stepAccept x w acceptSock) else none
  | .close w s =>
    if x.worker w = .idle ∧ (x.server.sessions s).id ≠ 0 then some (stepClose x w s) else none
  | .work w => stepWork x w

/-- The Session that a worker is about to enter into the table. -/
def Worker.accepting : Worker → Option ℕ
  | .number s _ | .sending s | .reopen s | .allocate s | .insert s => some s
  | _ => none

/-- No Session is closed between its `Acquire` and its entry into the table. -/
def State.Apart (x : State n) : Act n → Prop
  | .close _ s => ∀ v, (x.worker v).accepting ≠ some s
  | _ => True

instance (x : State n) (a : Act n) : Decidable (x.Apart a) := by
  cases a <;> unfold State.Apart <;> infer_instance

/-- Where a Session lies when no worker has it. -/
inductive Shelf
  | pool
  | open
  deriving DecidableEq

/-- The Session a worker has taken from the pool or from the open ones. -/
def Worker.session : Worker → Option ℕ
  | .idle | .count => none
  | .number s _ | .sending s | .reopen s | .allocate s | .insert s | .closeSock s | .giveBuf s
  | .erase s | .uncount s | .release s => some s

/-- `CloseSession` has set the flag. -/
def Worker.closing : Worker → Bool
  | .closeSock _ | .giveBuf _ | .erase _ | .uncount _ | .release _ => true
  | _ => false

/-- The connections that have been accepted. -/
def accepts (trace : List Effect) : List (ℕ × ℕ) :=
  trace.filterMap fun
    | .accepted s id => some (s, id)
    | _ => none

/-- The connections that have been closed. -/
def closes (trace : List Effect) : List (ℕ × ℕ) :=
  trace.filterMap fun
    | .closed s id => some (s, id)
    | _ => none

/-- The worker has entered a Session into the table and has not counted it yet. -/
def Worker.counting : Worker → ℕ
  | .count => 1
  | _ => 0

/-- The worker has taken a Session out of the table and counts it still. -/
def Worker.uncounting : Worker → ℕ
  | .uncount _ => 1
  | _ => 0

/-- What `statCurConn_` counts. -/
def State.Counted (x : State n) : Prop :=
  x.server.statCurConn + tally Worker.counting x.worker =
    (x.server.sessionTable.keys.length : ℤ) + tally Worker.uncounting x.worker

/-- A Session lies in the pool, is open, or a worker has it. -/
def State.At (x : State n) (s : ℕ) : Shelf ⊕ Fin n → Prop
  | .inl .pool => s ∈ x.server.free
  | .inl .open => x.server.sessionTable.lookup (x.server.sessions s).id = some s ∧
      (x.server.sessions s).closing = false
  | .inr w => (x.worker w).session = some s

end IocpChat.Workers
