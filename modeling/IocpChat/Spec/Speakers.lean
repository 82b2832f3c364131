import IocpChat.Spec.Workers

/-! Any number of workers accept, receive, broadcast and close at once. What they do to the pools
and the table is as in `Workers`; here they also have a receive to handle, and messages to push.
Each access to `closing`, each `WSARecv` and each critical section of `Broadcast` and
`EnqueueSend` is one atomic step. What becomes of a message behind its push is left aside. -/

namespace IocpChat.Speakers

inductive Msg
  /-- What a handler broadcasts for a connection; the number is history. -/
  | said (conn number : ℕ)
  /-- The greeting, or an answer to one client. -/
  | answer
  deriving DecidableEq

/-- The receive that a worker is busy with. -/
inductive Turn
  | none
  /-- `AcceptCompletion`, from `Acquire` up to `PostRecv` -/
  | accepting (s : ℕ)
  /-- `RecvCompletion`, up to `PostRecv` -/
  | handling (s : ℕ)
  /-- `PostRecv`: `WSARecv` -/
  | posting (s : ℕ)
  deriving DecidableEq

/-- The rest of a `Broadcast`, or of a single `EnqueueSend`. -/
structure Call where
  msg : Msg
  /-- The Sessions that are still to be visited. -/
  todo : List ℕ
  /-- `EnqueueSend` has found the first of them not closing. -/
  loaded : Bool
  deriving DecidableEq

structure State (n : ℕ) where
  base : Workers.State n
  /-- The `WSARecv` calls of each Session whose completion was not dequeued yet. -/
  recvs : ℕ → ℕ
  turn : Fin n → Turn
  call : Fin n → Option Call
  /-- History: what was pushed on `sendQueue` since the Session was entered into the table. -/
  told : ℕ → List Msg
  /-- History: how much was broadcast for each connection. -/
  said : ℕ → ℕ
  /-- History: `said` when the Session was entered into the table. -/
  since : ℕ → ℕ → ℕ

def init (n maxSessions : ℕ) : State n :=
  ⟨Workers.init n maxSessions, fun _ => 0, fun _ => .none, fun _ => none, fun _ => [], fun _ => 0,
    fun _ _ => 0⟩

inductive Act (n : ℕ)
  /-- The worker calls `AcceptCompletion`. -/
  | accept (w : Fin n) (acceptSock : Option ℕ)
  /-- The worker calls `CloseSession`, for whatever reason. -/
  | close (w : Fin n) (s : ℕ)
  /-- The worker takes its next step in `AcceptCompletion` or `CloseSession`. -/
  | work (w : Fin n)
  /-- The worker dequeues the completion of a receive. -/
  | complete (w : Fin n) (s : ℕ)
  /-- `PostRecv`: read `closing`. -/
  | post (w : Fin n)
  /-- `PostRecv`: `WSARecv` succeeds or fails. -/
  | recv (w : Fin n) (ok : Bool)
  /-- `RecvCompletion` returns without `PostRecv`. -/
  | leave (w : Fin n)
  /-- A handler calls `Broadcast`, and the snapshot has this order. -/
  | announce (w : Fin n) (snapshot : List ℕ)
  /-- `OnClientConnected` or a handler calls `EnqueueSend`. -/
  | answer (w : Fin n) (s : ℕ)
  /-- The worker takes its next step in `Broadcast` or `EnqueueSend`. -/
  | call (w : Fin n)
  deriving DecidableEq

variable {n : ℕ}

/-- The worker that takes the step. -/
def Act.worker : Act n → Fin n
  | .accept w _ | .close w _ | .work w | .complete w _ | .post w | .recv w _ | .leave w
  | .announce w _ | .answer w _ | .call w => w

/-- The Session whose receive the worker is busy with. -/
def Turn.session : Turn → Option ℕ
  | .none => Option.none
  | .accepting s | .handling s | .posting s => some s

/-- `Acquire` found a Session, or the pool was empty. -/
def Turn.acquired : Workers.Worker → Turn
  | .number s _ => .accepting s
  | _ => .none

/-- The worker is in none of the functions it calls from its handler. -/
def State.Free (x : State n) (w : Fin n) : Prop := x.base.worker w = .idle ∧ x.call w = none

instance (x : State n) (w : Fin n) : Decidable (x.Free w) := by
  unfold State.Free
  infer_instance

def State.setTurn (x : State n) (w : Fin n) (t : Turn) : State n :=
  { x with turn := Function.update x.turn w t }

def State.setCall (x : State n) (w : Fin n) (c : Option Call) : State n :=
  { x with call := Function.update x.call w c }

def stepPost (x : State n) (w : Fin n) : Option (State n) :=
  match x.turn w with
  | .accepting s | .handling s =>
    some (x.setTurn w (if (x.base.server.sessions s).closing then .none else .posting s))
  | _ => none

def stepRecv (x : State n) (w : Fin n) (ok : Bool) : Option (State n) :=
  match x.turn w with
  | .posting s => some { x.setTurn w .none with
      recvs := if ok then Function.update x.recvs s (x.recvs s + 1) else x.recvs }
  | _ => none

def stepLeave (x : State n) (w : Fin n) : Option (State n) :=
  match x.turn w with
  | .handling _ => some (x.setTurn w .none)
  | _ => none

/-- `Broadcast` for the connection of the Session that is being handled: the snapshot, without
the excluded Session. -/
def stepAnnounce (x : State n) (w : Fin n) (snapshot : List ℕ) : Option (State n) :=
  match x.turn w with
  | .handling s =>
    let conn := (x.base.server.sessions s).id
    if snapshot.Perm x.base.server.tabled then
      some { x.setCall w (some ⟨.said conn (x.said conn), snapshot.filter (· ≠ s), false⟩) with
        said := Function.update x.said conn (x.said conn + 1) }
    else none
  | _ => none

/-- The loop of `Broadcast`, and `EnqueueSend` up to its push. -/
def stepCall (x : State n) (w : Fin n) : Option (State n) :=
  match x.call w with
  | none => none
  | some ⟨_, [], _⟩ => some (x.setCall w none)
  | some ⟨m, s :: todo, false⟩ =>
    some (x.setCall w (some
      (if (x.base.server.sessions s).closing then ⟨m, todo, false⟩ else ⟨m, s :: todo, true⟩)))
  | some ⟨m, s :: todo, true⟩ =>
    some { x.setCall w (some ⟨m, todo, false⟩) with
      told := Function.update x.told s (x.told s ++ [m]) }

/-- A step of `AcceptCompletion` or `CloseSession`; a Session that is entered into the table has
been told nothing. -/
def State.work (x : State n) (w : Fin n) (b : Workers.State n) : State n :=
  { x with
    base := b
    told := fun s => if x.base.worker w = .insert s then [] else x.told s
    since := fun s => if x.base.worker w = .insert s then x.said else x.since s }

def step (x : State n) : Act n → Option (State n)
  | .accept w acceptSock =>
    if x.call w = none ∧ x.turn w = .none then
      (Workers.step x.base (.accept w acceptSock)).map fun b =>
        { x.setTurn w (.acquired (b.worker w)) with base := b }
    else none
  | .close w s => (Workers.step x.base (.close w s)).map fun b => { x with base := b }
  | .work w => (Workers.step x.base (.work w)).map (x.work w)
  | .complete w s =>
    if x.Free w ∧ x.turn w = .none ∧ 0 < x.recvs s then
      some { x.setTurn w (.handling s) with recvs := Function.update x.recvs s (x.recvs s - 1) }
    else none
  | .post w => if x.Free w then stepPost x w else none
  | .recv w ok => if x.Free w then stepRecv x w ok else none
  | .leave w => if x.Free w then stepLeave x w else none
  | .announce w snapshot => if x.Free w then stepAnnounce x w snapshot else none
  | .answer w s => if x.Free w then some (x.setCall w (some ⟨.answer, [s], false⟩)) else none
  | .call w => if x.base.worker w = .idle then stepCall x w else none

/-- No Session is taken from the pool while an earlier receive of it is in flight or being
handled, and none is closed between its `Acquire` and its entry into the table. -/
def State.Timely (x : State n) : Act n → Prop
  | .accept .. =>
    ∀ s ∈ x.base.server.free.head?, x.recvs s = 0 ∧ ∀ v, (x.turn v).session ≠ some s
  | .close w s => x.base.Apart (.close w s)
  | _ => True

instance (x : State n) (a : Act n) : Decidable (x.Timely a) := by
  cases a <;> unfold State.Timely <;> infer_instance

def Msg.number (k : ℕ) : Msg → Option ℕ
  | .said conn i => if conn = k then some i else none
  | .answer => none

/-- The numbers of what was told for a connection. -/
def numbers (k : ℕ) (told : List Msg) : List ℕ := told.filterMap (Msg.number k)

/-- The call has yet to come to this Session with a message of connection `k`. -/
def owes (t k : ℕ) : Option Call → Prop
  | some ⟨.said conn _, todo, _⟩ => conn = k ∧ t ∈ todo
  | _ => False

def Pending (t k : ℕ) (call : Fin n → Option Call) : Prop := ∃ w, owes t k (call w)

end IocpChat.Speakers
