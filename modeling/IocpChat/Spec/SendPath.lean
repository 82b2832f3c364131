import Mathlib.Tactic

/-! The sending side of one Session, step by step: any number of workers inside
`EnqueueSend`, `PostSend` and `SendCompletion`, each critical section under
`sessionMtx_`, each access to `sending` and `closing`, each write of `ovSend` and
each `WSASend` one atomic step. -/

namespace IocpChat.SendPath

/-- The loop of `PostSend` under the lock, with the room left in the batch. -/
def popLoop {α : Type} : ℕ → List α → List α × List α
  | 0, queue => ([], queue)
  | _ + 1, [] => ([], [])
  | room + 1, m :: queue => (m :: (popLoop room queue).1, (popLoop room queue).2)

/-- At most 16 messages, and what stays in the queue. -/
def popBatch {α : Type} (queue : List α) : List α × List α := popLoop 16 queue

/-- The next step of a worker. -/
inductive Pc (α : Type)
  | idle
  /-- `EnqueueSend`: read `closing`. -/
  | enqueueLoad (m : α)
  /-- `EnqueueSend`: push under the lock. -/
  | enqueuePush (m : α)
  /-- `EnqueueSend`: `sending.exchange(true)`. -/
  | enqueueExchange
  /-- `PostSend`: read `closing`. -/
  | postLoad
  /-- `PostSend`: pop a batch under the lock. -/
  | postPop
  /-- `PostSend` popped nothing: store `sending = false`. -/
  | postClear
  /-- `PostSend`: write `ovSend`. -/
  | postOverlapped (toSend : List α)
  /-- `PostSend`: `WSASend`. -/
  | postSend (toSend : List α)
  /-- `CloseSession`: `closing.exchange(true)`; called by `PostSend` or from elsewhere. -/
  | closeExchange (byPostSend : Bool)
  /-- `CloseSession`: everything behind the exchange, up to `SessionPool::Release`. -/
  | closeRest (byPostSend : Bool)
  deriving DecidableEq

variable {W α : Type}

def Pc.isIdle : Pc α → Bool
  | .idle => true
  | _ => false

/-- The worker is inside `EnqueueSend`, `PostSend` or `SendCompletion`. -/
def Pc.inside : Pc α → Bool
  | .idle => false
  | .closeExchange byPostSend => byPostSend
  | .closeRest byPostSend => byPostSend
  | _ => true

structure State (W α : Type) where
  sendQueue : List α
  sending : Bool
  closing : Bool
  /-- On the `free_` stack of `SessionPool`. -/
  pooled : Bool
  /-- The `WSASend` calls whose completion was not dequeued yet. -/
  inFlight : List (List α)
  pc : W → Pc α
  /-- History: what the last accept found in `sendQueue`. -/
  leftover : List α
  /-- History: the messages pushed since that accept, in lock order. -/
  pushed : List α
  /-- History: the batches handed to `WSASend` since that accept. -/
  handed : List (List α)

/-- A new Session in the pool. -/
def init : State W α := ⟨[], false, false, true, [], fun _ => .idle, [], [], []⟩

inductive Act (W α : Type)
  /-- `AcceptCompletion` takes the Session from the pool for a new connection. -/
  | accept
  /-- A worker calls `EnqueueSend`. -/
  | enqueue (w : W) (m : α)
  /-- A worker dequeues the completion of one of the sends in flight. -/
  | complete (w : W) (i : ℕ)
  /-- A worker calls `CloseSession` outside of `PostSend`. -/
  | close (w : W)
  /-- A worker makes its next step; a `WSASend` there succeeds or fails. -/
  | next (w : W) (sendOk : Bool)
  deriving DecidableEq

variable [DecidableEq W]

def State.goto (x : State W α) (w : W) (p : Pc α) : State W α :=
  { x with pc := Function.update x.pc w p }

/-- The next step of worker `w`. -/
def next (x : State W α) (w : W) (sendOk : Bool) : Option (State W α) :=
  match x.pc w with
  | .idle => none
  | .enqueueLoad m => some (x.goto w (if x.closing then .idle else .enqueuePush m))
  | .enqueuePush m =>
    some { x.goto w .enqueueExchange with
      sendQueue := x.sendQueue ++ [m], pushed := x.pushed ++ [m] }
  | .enqueueExchange =>
    some { x.goto w (if x.sending then .idle else .postLoad) with sending := true }
  | .postLoad => some (x.goto w (if x.closing then .idle else .postPop))
  | .postPop =>
    let (toSend, queue) := popBatch x.sendQueue
    some { x.goto w (if toSend.isEmpty then .postClear else .postOverlapped toSend) with
      sendQueue := queue }
  | .postClear => some { x.goto w .idle with sending := false }
  | .postOverlapped toSend => some (x.goto w (.postSend toSend))
  | .postSend toSend =>
    if sendOk then
      some { x.goto w .idle with
        handed := x.handed ++ [toSend], inFlight := x.inFlight ++ [toSend] }
    else some { x.goto w (.closeExchange true) with handed := x.handed ++ [toSend] }
  | .closeExchange byPostSend =>
    some { x.goto w (if x.closing then .idle else .closeRest byPostSend) with closing := true }
  | .closeRest _ => some { x.goto w .idle with pooled := true }

def step (x : State W α) : Act W α → Option (State W α)
  | .accept =>
    if x.pooled then
      some { x with sending := false, closing := false, pooled := false,
                    leftover := x.sendQueue, pushed := [], handed := [] }
    else none
  | .enqueue w m => if (x.pc w).isIdle then some (x.goto w (.enqueueLoad m)) else none
  | .complete w i =>
    if (x.pc w).isIdle ∧ i < x.inFlight.length then
      some { x.goto w .postLoad with inFlight := x.inFlight.eraseIdx i }
    else none
  | .close w => if (x.pc w).isIdle then some (x.goto w (.closeExchange false)) else none
  | .next w sendOk => next x w sendOk

/-! ### What is claimed of it -/

/-- The messages the worker has popped and not handed to `WSASend`. -/
def Pc.carries : Pc α → List α
  | .postOverlapped toSend | .postSend toSend => toSend
  | _ => []

/-- Nothing of an earlier connection goes on when an accept takes the Session. -/
def FreshAccept (x : State W α) (a : Act W α) : Prop :=
  a = .accept → x.inFlight = [] ∧ ∀ w, (x.pc w).inside = false

instance [DecidableEq α] [Fintype W] (x : State W α) (a : Act W α) :
    Decidable (FreshAccept x a) :=
  inferInstanceAs (Decidable (a = .accept → x.inFlight = [] ∧ ∀ w, (x.pc w).inside = false))

/-- At most one send is in flight, and none while a worker is about to write
`ovSend` or to pass it to `WSASend`. -/
def OneSend (x : State W α) : Prop :=
  x.inFlight.length ≤ 1 ∧
    ∀ w toSend, x.pc w = .postOverlapped toSend ∨ x.pc w = .postSend toSend → x.inFlight = []

/-- `popped` is what a `PostSend` in progress has taken out of the queue. -/
def Popped (x : State W α) (popped : List α) : Prop :=
  (∃ w, (x.pc w).carries = popped ∧ ∀ v, v ≠ w → (x.pc v).carries = []) ∨
    (popped = [] ∧ ∀ w, (x.pc w).carries = [])

/-- Handed, popped and queued messages are the pushed ones, in order. -/
def Fifo (x : State W α) : Prop :=
  ∃ popped, Popped x popped ∧ x.handed.flatten ++ popped ++ x.sendQueue = x.pushed

/-- With nobody in the send path, nothing in flight and the session open, nothing
is queued. -/
def Drained (x : State W α) : Prop :=
  (∀ w, (x.pc w).inside = false) → x.inFlight = [] → x.closing = false → x.sendQueue = []

/-- The accept finds the Session unused, as a new one is. -/
def CleanAccept (x : State W α) (a : Act W α) : Prop :=
  FreshAccept x a ∧ (a = .accept → x.sendQueue = [])

instance [DecidableEq α] [Fintype W] (x : State W α) (a : Act W α) :
    Decidable (CleanAccept x a) :=
  inferInstanceAs (Decidable (FreshAccept x a ∧ (a = .accept → x.sendQueue = [])))

/-- The exchange that worker `w` makes next sees the `true` of a worker about to
store `false`, and leaves messages behind that no other enqueuer comes for. -/
def Strands (x : State W α) (w : W) : Prop :=
  x.pc w = .enqueueExchange ∧ (∃ v, x.pc v = .postClear) ∧ x.sendQueue ≠ [] ∧
    ∀ v, v ≠ w → x.pc v ≠ .enqueueExchange

instance [DecidableEq α] [Fintype W] (x : State W α) (w : W) :
    Decidable (Strands x w) :=
  inferInstanceAs (Decidable (x.pc w = .enqueueExchange ∧ (∃ v, x.pc v = .postClear) ∧
    x.sendQueue ≠ [] ∧ ∀ v, v ≠ w → x.pc v ≠ .enqueueExchange))

/-- The accept is clean, and no exchange strands a message. -/
def Wakes (x : State W α) (a : Act W α) : Prop :=
  CleanAccept x a ∧ ∀ w ok, a = .next w ok → ¬ Strands x w

instance [DecidableEq α] [Fintype W] (x : State W α) (a : Act W α) :
    Decidable (Wakes x a) :=
  inferInstanceAs (Decidable (CleanAccept x a ∧ ∀ w ok, a = .next w ok → ¬ Strands x w))

end IocpChat.SendPath
