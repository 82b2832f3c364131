import Mathlib.Tactic

/-! The end of `IOCP_EchoServer`: its `n` worker threads, the statistics thread and the thread
that calls `Stop`. Each access to `running_`, each wait and each post is one atomic step. What
a completion handler does in between, all that matters here is that it does not read
`running_`, that it returns, and how many sessions it leaves in `sessionTable_`. -/

namespace IocpChat.Shutdown

/-- What `GetQueuedCompletionStatus` takes out of the completion port. -/
inductive Packet
  /-- Posted by `Stop`, without an `OVERLAPPED`. -/
  | wake
  /-- The completion of an accept, a receive or a send. -/
  | io
  deriving DecidableEq

/-- The next step of `WorkerThread`. -/
inductive Worker
  /-- `while (running_)` -/
  | test
  /-- Inside `GetQueuedCompletionStatus`. -/
  | wait
  /-- `if (!running_) break;`, and the packet is looked at; `none` if the call failed. -/
  | look (packet : Option Packet)
  /-- Inside a completion handler. -/
  | handle
  | done
  deriving DecidableEq

/-- The next step of `StatThread`. -/
inductive Stat
  | test
  | sleep
  | print
  | done
  deriving DecidableEq

/-- The next step of the thread that calls `Stop`. -/
inductive Stop (n : ℕ)
  | out
  /-- `if (!running_) return;` -/
  | test
  /-- `running_ = false;` -/
  | clear
  | closeListen
  /-- So many calls of `PostQueuedCompletionStatus` are left. -/
  | post (left : ℕ)
  /-- These workers are to be joined. -/
  | join (left : List (Fin n))
  | joinStat
  | closeSessions
  | closeHandle
  | cleanup
  deriving DecidableEq

structure State (n : ℕ) where
  running : Bool
  /-- The queue of the completion port. -/
  queue : List Packet
  worker : Fin n → Worker
  stat : Stat
  stop : Stop n
  /-- The number of entries of `sessionTable_`. -/
  sessions : ℕ
  /-- History: the calls of `closesocket(listenSocket_)`, `CloseHandle` and `WSACleanup`. -/
  listenCloses : ℕ
  handleCloses : ℕ
  cleanups : ℕ

/-- `Start` has returned. -/
def init (n : ℕ) : State n where
  running := true
  queue := []
  worker _ := .test
  stat := .test
  stop := .out
  sessions := 0
  listenCloses := 0
  handleCloses := 0
  cleanups := 0

inductive Act (n : ℕ)
  /-- `Stop` is called, by `main` or by the destructor. -/
  | call
  /-- The next step in `Stop`. -/
  | stop
  | worker (w : Fin n)
  /-- A completion handler returns and leaves so many sessions in the table. -/
  | handled (w : Fin n) (sessions : ℕ)
  /-- `GetQueuedCompletionStatus` fails for a worker and gives it nothing. -/
  | fail (w : Fin n)
  | stat
  /-- An operation completes. -/
  | complete
  deriving DecidableEq

variable {n : ℕ}

def State.goto (x : State n) (w : Fin n) (p : Worker) : State n :=
  { x with worker := Function.update x.worker w p }

def stepStop (x : State n) : Option (State n) :=
  match x.stop with
  | .out => none
  | .test => some { x with stop := if x.running then .clear else .out }
  | .clear => some { x with running := false, stop := .closeListen }
  | .closeListen => some { x with listenCloses := x.listenCloses + 1, stop := .post n }
  | .post 0 => some { x with stop := .join (List.finRange n) }
  | .post (left + 1) => some { x with queue := x.queue ++ [.wake], stop := .post left }
  | .join [] => some { x with stop := .joinStat }
  | .join (w :: left) => if x.worker w = .done then some { x with stop := .join left } else none
  | .joinStat => if x.stat = .done then some { x with stop := .closeSessions } else none
  -- With a session left, `CloseSession` would lock `sessionMtx_` under the lock of `Stop`.
  | .closeSessions => if x.sessions = 0 then some { x with stop := .closeHandle } else none
  | .closeHandle => some { x with handleCloses := x.handleCloses + 1, stop := .cleanup }
  | .cleanup => some { x with cleanups := x.cleanups + 1, stop := .out }

def stepWorker (x : State n) (w : Fin n) : Option (State n) :=
  match x.worker w with
  | .test => some (x.goto w (if x.running then .wait else .done))
  | .wait =>
    match x.queue with
    | [] => none
    | packet :: queue => some { x.goto w (.look (some packet)) with queue }
  | .look packet =>
    some (x.goto w (if !x.running then .done else if packet = some .io then .handle else .test))
  | .handle | .done => none

def stepStat (x : State n) : Option (State n) :=
  match x.stat with
  | .test => some { x with stat := if x.running then .sleep else .done }
  | .sleep => some { x with stat := .print }
  | .print => some { x with stat := .test }
  | .done => none

def step (x : State n) : Act n → Option (State n)
  | .call => if x.stop = .out then some { x with stop := .test } else none
  | .stop => stepStop x
  | .worker w => stepWorker x w
  | .handled w sessions =>
    if x.worker w = .handle then some { x.goto w .test with sessions } else none
  | .fail w => if x.worker w = .wait then some (x.goto w (.look none)) else none
  | .stat => stepStat x
  | .complete => some { x with queue := x.queue ++ [.io] }

/-- The threads have been joined. -/
def Stop.alone : Stop n → Bool
  | .closeSessions | .closeHandle | .cleanup => true
  | _ => false

/-- No thread is left. -/
structure State.Deserted (x : State n) : Prop where
  workers : ∀ w, x.worker w = .done
  stat : x.stat = .done

/-- The act is a step of one of the threads. -/
def Act.isThread : Act n → Bool
  | .stop | .worker _ | .handled .. | .fail _ | .stat => true
  | .call | .complete => false

/-- Some thread can take a step, and need not hope for a call that fails. -/
def State.Moves (x : State n) : Prop :=
  ∃ a : Act n, a.isThread = true ∧ (∀ w, a ≠ .fail w) ∧ (step x a).isSome = true

/-- `Stop` is through, or a session is left that it cannot close. -/
def State.Through (x : State n) : Prop :=
  x.stop = .out ∨ x.stop = .closeSessions ∧ x.sessions ≠ 0

end IocpChat.Shutdown
