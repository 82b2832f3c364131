import Mathlib.Tactic
import IocpChat.Lib.Tally

/-! The receiving side of one Session, step by step: any number of workers inside `PostRecv`,
`RecvCompletion` and `CloseSession`, and `AcceptCompletion` up to its `PostRecv`. Each access to
`closing` and each `WSARecv` is one atomic step. What happens to `rx` is not atomic: it takes from
one step of a worker to the next. -/

namespace IocpChat.RecvPath

open Threads (tally)

/-- The next step of a worker. -/
inductive Pc
  | idle
  /-- `AcceptCompletion` has taken the Session from the pool; its next store is `closing = false`. -/
  | accepted
  /-- `AcceptCompletion` behind that store: `rx.clear`, the buffer and the table. -/
  | reopened
  /-- `PostRecv`: read `closing`. -/
  | postLoad
  /-- `PostRecv`: `WSARecv`. -/
  | postRecv
  /-- `RecvCompletion`: `rx.append`, and the loop that takes packets out of `rx`. -/
  | drain
  /-- `CloseSession`: `closing.exchange(true)`; called by a packet handler or from elsewhere. -/
  | closeExchange (byHandler : Bool)
  /-- `CloseSession`: everything behind the exchange, up to `SessionPool::Release`. -/
  | closeRest (byHandler : Bool)
  deriving DecidableEq

/-- Where `CloseSession` returns to. -/
def Pc.back (byHandler : Bool) : Pc := if byHandler then .drain else .idle

/-- The worker is on its way to the `PostRecv` of this Session. -/
def Pc.receives : Pc → Bool
  | .idle => false
  | .closeExchange byHandler => byHandler
  | .closeRest byHandler => byHandler
  | _ => true

/-- The worker is in the middle of something with `rx`. -/
def Pc.usesRx : Pc → Bool
  | .accepted | .reopened | .drain => true
  | .closeExchange byHandler => byHandler
  | .closeRest byHandler => byHandler
  | _ => false

structure State (n : ℕ) where
  closing : Bool
  /-- How often the Session is on the `free_` stack of `SessionPool`. -/
  pooled : ℕ
  /-- The `WSARecv` calls whose completion was not dequeued yet. -/
  recvs : ℕ
  pc : Fin n → Pc

/-- A new Session in the pool. -/
def init (n : ℕ) : State n := ⟨false, 1, 0, fun _ => .idle⟩

/-- How a round of the loop in `RecvCompletion` ends. -/
inductive Round
  /-- The packet's handler, or a send of it that fails, closes the Session. -/
  | closes
  /-- Nothing more to take out of `rx`. -/
  | needMore
  /-- `rx` overflows, or the packet is malformed. -/
  | bad
  deriving DecidableEq

inductive Act (n : ℕ)
  /-- `AcceptCompletion` takes the Session from the pool for a new connection. -/
  | accept (w : Fin n)
  /-- A worker dequeues the completion of a receive, with or without data. -/
  | complete (w : Fin n) (data : Bool)
  /-- A worker calls `CloseSession` for another reason. -/
  | close (w : Fin n)
  /-- A worker in the loop of `RecvCompletion` gets on. -/
  | drain (w : Fin n) (round : Round)
  /-- A worker makes another step; a `WSARecv` there succeeds or fails. -/
  | next (w : Fin n) (recvOk : Bool)
  deriving DecidableEq

variable {n : ℕ}

def State.goto (x : State n) (w : Fin n) (p : Pc) : State n :=
  { x with pc := Function.update x.pc w p }

def next (x : State n) (w : Fin n) (recvOk : Bool) : Option (State n) :=
  match x.pc w with
  | .idle | .drain => none
  -- a `CloseSession` that came since `Acquire` is undone
  | .accepted => some { x.goto w .reopened with closing := false }
  | .reopened => some (x.goto w .postLoad)
  | .postLoad => some (x.goto w (if x.closing then .idle else .postRecv))
  | .postRecv =>
    if recvOk then some { x.goto w .idle with recvs := x.recvs + 1 }
    else some (x.goto w (.closeExchange false))
  | .closeExchange byHandler =>
    some { x.goto w (if x.closing then .back byHandler else .closeRest byHandler) with
      closing := true }
  | .closeRest byHandler => some { x.goto w (.back byHandler) with pooled := x.pooled + 1 }

def step (x : State n) : Act n → Option (State n)
  | .accept w =>
    if x.pc w = .idle ∧ 0 < x.pooled then
      some { x.goto w .accepted with closing := false, pooled := x.pooled - 1 }
    else none
  | .complete w data =>
    if x.pc w = .idle ∧ 0 < x.recvs then
      some { x.goto w (if data then .drain else .closeExchange false) with recvs := x.recvs - 1 }
    else none
  | .close w => if x.pc w = .idle then some (x.goto w (.closeExchange false)) else none
  | .drain w round =>
    if x.pc w = .drain then
      some (x.goto w (match round with
        | .closes => .closeExchange true
        | .needMore => .postLoad
        | .bad => .closeExchange false))
    else none
  | .next w recvOk => next x w recvOk

/-- The Session is taken from the pool only when no receive of an earlier connection is in
flight and no worker is busy with one. -/
def State.Fresh (x : State n) : Act n → Prop
  | .accept _ => x.recvs = 0 ∧ ∀ v, (x.pc v).receives = false
  | _ => True

instance (x : State n) (a : Act n) : Decidable (x.Fresh a) := by
  cases a <;> unfold State.Fresh <;> infer_instance

def Pc.turn (p : Pc) : ℕ := p.receives.toNat

/-- Receives in flight, and workers on their way to one. -/
def State.turns (x : State n) : ℕ := x.recvs + tally Pc.turn x.pc

/-- At most one receive is in flight or being handled. -/
def State.Single (x : State n) : Prop := x.turns ≤ 1

end IocpChat.RecvPath
