import IocpChat.Spec.SendPath

/-! The sending side of one Session, with the identity of its vectors: `EnqueueSend` makes
them, the queue and the local `toSend` of a `PostSend` hold them by moves, and `toSend` is
destroyed when `PostSend` returns. -/

namespace IocpChat.SendPath

/-- A `std::vector<char>`; they are numbered as they are made. -/
structure Vec where
  no : ℕ
  bytes : List UInt8
  deriving DecidableEq

/-- What `WSASend` returns. -/
inductive SendResult
  /-- 0: the data was sent; the completion is queued all the same. -/
  | done
  /-- `SOCKET_ERROR` with `WSA_IO_PENDING`. -/
  | pending
  /-- `SOCKET_ERROR` with another error. -/
  | error
  deriving DecidableEq

structure Memory (W : Type) where
  path : State W Vec
  /-- The vectors made so far. -/
  made : ℕ
  /-- For each of the calls in `path.inFlight`: it returned `WSA_IO_PENDING`. -/
  pending : List Bool

namespace Memory

variable {W : Type}

def init : Memory W := ⟨SendPath.init, 0, []⟩

inductive Act (W : Type)
  | accept
  /-- A worker calls `EnqueueSend` with these bytes. -/
  | enqueue (w : W) (data : List UInt8)
  | complete (w : W) (i : ℕ)
  | close (w : W)
  /-- A worker makes its next step; a `WSASend` there returns the result. -/
  | next (w : W) (result : SendResult)
  deriving DecidableEq

/-- The mark of a call that goes into flight. -/
def mark : Pc Vec → SendResult → Option Bool
  | .postSend _, .done => some false
  | .postSend _, .pending => some true
  | _, _ => none

variable [DecidableEq W]

def step (x : Memory W) : Act W → Option (Memory W)
  | .accept => do
    let path ← SendPath.step x.path .accept
    return { x with path }
  | .enqueue w data => do
    let path ← SendPath.step x.path (.enqueue w ⟨x.made, data⟩)
    return { x with path, made := x.made + 1 }
  | .complete w i => do
    let path ← SendPath.step x.path (.complete w i)
    return { x with path, pending := x.pending.eraseIdx i }
  | .close w => do
    let path ← SendPath.step x.path (.close w)
    return { x with path }
  | .next w result => do
    let path ← SendPath.step x.path (.next w (result ≠ .error))
    return { x with path, pending := x.pending ++ (mark (x.path.pc w) result).toList }

end Memory

/-- The vectors in the hands of a worker: the one it will push, or its `toSend`. -/
def Pc.vectors {α : Type} : Pc α → List α
  | .enqueueLoad m | .enqueuePush m => [m]
  | .postOverlapped toSend | .postSend toSend => toSend
  | _ => []

namespace Memory

variable {W : Type}

/-- The `WSASend` calls that returned `WSA_IO_PENDING` and whose completion was not handled
yet, by the vectors in their `WSABUF` arrays. -/
def outstanding (x : Memory W) : List (List Vec) :=
  ((x.path.inFlight.zip x.pending).filter Prod.snd).map Prod.fst

/-- The vector is held by the Session, or by a function that has not returned. -/
def Holds (x : Memory W) (v : Vec) : Prop :=
  v ∈ x.path.sendQueue ∨ ∃ w, v ∈ (x.path.pc w).vectors

/-- What is being sent is held. -/
def Alive (x : Memory W) : Prop := ∀ batch ∈ x.outstanding, ∀ v ∈ batch, x.Holds v

end Memory

end IocpChat.SendPath
