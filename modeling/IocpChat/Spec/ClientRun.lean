import Mathlib.Tactic

/-! The life of an `EchoClient`: `main` with `run`, and the two threads it starts. What the
threads do with the bytes is left aside here; each call, each access to `running_` and each
statement of `stop` is one atomic step. -/

namespace IocpChat.ClientRun

/-- The next step of `stop`. -/
inductive Stop
  /-- `running_.compare_exchange_strong(expected, false)` -/
  | exchange
  /-- `if (sock_ != INVALID_SOCKET)` -/
  | test
  | shutdown
  | closesocket
  /-- `sock_ = INVALID_SOCKET;` -/
  | forget
  /-- `WSACleanup` -/
  | cleanup
  deriving DecidableEq

/-- The next step of the main thread. -/
inductive Main
  /-- `init`: `WSAStartup` -/
  | startup
  /-- `createSocket`: `socket` -/
  | socket
  /-- `connectToServer`: `inet_pton` -/
  | inetPton
  /-- `connectToServer`: `connect` -/
  | connect
  /-- `connectToServer` fails: `closesocket` -/
  | failClose
  /-- `createSocket` or `connectToServer` fails: `WSACleanup` -/
  | failCleanup
  /-- `run`: `running_ = true;` -/
  | setRunning
  | startRx
  | startTx
  | joinTx
  | joinRx
  | stop (s : Stop)
  | exit (code : ℕ)
  deriving DecidableEq

/-- The next step of `receiveLoop`. -/
inductive Rx
  | unborn
  | test
  | recv
  | display
  | stop (s : Stop)
  | done
  deriving DecidableEq

/-- The next step of `sendLoop`. -/
inductive Tx
  | unborn
  | test
  | getline
  /-- What was typed is sent. -/
  | send
  | stop (s : Stop)
  | done
  deriving DecidableEq

structure State where
  running : Bool
  /-- `sock_` is not `INVALID_SOCKET`. -/
  sock : Bool
  /-- The connection has been shut down. -/
  shut : Bool
  main : Main
  rx : Rx
  tx : Tx
  /-- History: the calls that succeeded, or always do. -/
  startups : ℕ
  sockets : ℕ
  shutdowns : ℕ
  closes : ℕ
  cleanups : ℕ
  deriving DecidableEq

def init : State := ⟨false, false, false, .startup, .unborn, .unborn, 0, 0, 0, 0, 0⟩

/-- A step of `stop`, and where it goes on, unless it returns. -/
def stepStop (x : State) : Stop → Option Stop × State
  | .exchange => if x.running then (some .test, { x with running := false }) else (none, x)
  | .test => (some (if x.sock then .shutdown else .cleanup), x)
  | .shutdown => (some .closesocket, { x with shut := true, shutdowns := x.shutdowns + 1 })
  | .closesocket => (some .forget, { x with closes := x.closes + 1 })
  | .forget => (some .cleanup, { x with sock := false })
  | .cleanup => (none, { x with cleanups := x.cleanups + 1 })

/-- Where `run` is after a step of `stop`, its last call. -/
def Main.after : Option Stop → Main
  | some s => .stop s
  | none => .exit 0

def Rx.after : Option Stop → Rx
  | some s => .stop s
  | none => .done

def Tx.after : Option Stop → Tx
  | some s => .stop s
  | none => .done

/-- A step of the main thread, and whether what it calls succeeds. -/
def stepMain (x : State) (ok : Bool) : Option State :=
  match x.main with
  | .startup =>
    some (if ok then { x with startups := x.startups + 1, main := .socket }
      else { x with main := .exit 1 })
  | .socket =>
    some (if ok then { x with sockets := x.sockets + 1, sock := true, main := .inetPton }
      else { x with main := .failCleanup })
  | .inetPton => some { x with main := if ok then .connect else .failClose }
  | .connect => some { x with main := if ok then .setRunning else .failClose }
  | .failClose => some { x with closes := x.closes + 1, main := .failCleanup }
  | .failCleanup => some { x with cleanups := x.cleanups + 1, main := .exit 1 }
  | .setRunning => some { x with running := true, main := .startRx }
  | .startRx => some { x with rx := .test, main := .startTx }
  | .startTx => some { x with tx := .test, main := .joinTx }
  | .joinTx => if x.tx = .done then some { x with main := .joinRx } else none
  | .joinRx => if x.rx = .done then some { x with main := .stop .exchange } else none
  | .stop s =>
    some { (stepStop x s).2 with main := .after (stepStop x s).1 }
  | .exit _ => none

/-- A step of `receiveLoop`; `recv` gives data or it does not, as always once the connection has
been shut down. -/
def stepRx (x : State) (data : Bool) : Option State :=
  match x.rx with
  | .unborn | .done => none
  | .test => some { x with rx := if x.running then .recv else .stop .exchange }
  | .recv =>
    if data then if x.shut then none else some { x with rx := .display }
    else some { x with rx := .stop .exchange }
  | .display => some { x with rx := .test }
  | .stop s =>
    some { (stepStop x s).2 with rx := .after (stepStop x s).1 }

/-- A step of `sendLoop`; `more` if a line was typed, and if the loop goes on after it. -/
def stepTx (x : State) (more : Bool) : Option State :=
  match x.tx with
  | .unborn | .done => none
  | .test => some { x with tx := if x.running then .getline else .stop .exchange }
  | .getline => some { x with tx := if more then .send else .stop .exchange }
  | .send => some { x with tx := if more then .test else .stop .exchange }
  | .stop s =>
    some { (stepStop x s).2 with tx := .after (stepStop x s).1 }

inductive Thread
  | main
  | rx
  | tx
  deriving DecidableEq

/-- A thread takes a step, and what it calls succeeds or not. -/
structure Act where
  thread : Thread
  ok : Bool
  deriving DecidableEq

def step (x : State) (a : Act) : Option State :=
  match a.thread with
  | .main => stepMain x a.ok
  | .rx => stepRx x a.ok
  | .tx => stepTx x a.ok

/-- The thread may have to wait: for the user, or for the connection while it is not shut down. -/
def State.Blocked (x : State) : Thread → Prop
  | .main => False
  | .rx => x.rx = .recv ∧ x.shut = false
  | .tx => x.tx = .getline ∨ x.tx = .send ∧ x.shut = false

end IocpChat.ClientRun
