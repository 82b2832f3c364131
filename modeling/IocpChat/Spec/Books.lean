import IocpChat.Spec.Moves

/-! Where the Sessions, the buffers, the sockets and the `OverlappedEx` are between two events,
and which sends are still to complete. -/

namespace IocpChat

/-- The joint invariant of the two pools, the table and the counter. -/
structure Books (max : ℕ) (σ : Server) : Prop where
  table : ∀ k s, σ.sessionTable.lookup k = some s ↔ σ.Open s ∧ (σ.sessions s).id = k
  free : ∀ s, s ∈ σ.free ↔ s < max ∧ ¬ σ.Open s
  free_nodup : σ.free.Nodup
  open_buf : ∀ s, σ.Open s → (σ.sessions s).rxBuf ≠ none
  closed_buf : ∀ s, ¬ σ.Open s → (σ.sessions s).rxBuf = none
  buf_fresh : ∀ s b, (σ.sessions s).rxBuf = some b →
    b < σ.bufferPool.fresh ∧ b ∉ σ.bufferPool.pool
  buf_inj : ∀ s t b, (σ.sessions s).rxBuf = some b → (σ.sessions t).rxBuf = some b → s = t
  pool_nodup : σ.bufferPool.pool.Nodup
  pool_lt : ∀ b ∈ σ.bufferPool.pool, b < σ.bufferPool.fresh
  id_lt : ∀ s, (σ.sessions s).id < σ.sessionIdGen
  used : ∀ s, (σ.sessions s).id ≠ 0 → s < max
  count : σ.statCurConn = σ.sessionTable.keys.length
  recvs : ∀ op ∈ σ.recvs, (σ.sessions op.sess).id ≠ 0
  sends : ∀ op ∈ σ.sends, (σ.sessions op.sess).id ≠ 0

def NoRecv (σ : Server) (s : ℕ) : Prop := ∀ op ∈ σ.recvs, op.sess ≠ s

instance (σ : Server) (s : ℕ) : Decidable (NoRecv σ s) :=
  inferInstanceAs (Decidable (∀ op ∈ σ.recvs, op.sess ≠ s))

/-- A `WSASend` fails at once only for a Session without a receive in flight. -/
def FailsIdle (env : Env) : Prop := ∀ σ s, env.wsaSendFails σ s = true → NoRecv σ s

/-- A call of `CloseSession` from outside meets no receive in flight. -/
def ClosesIdle (σ : Server) : Event → Prop
  | .closeSession s => NoRecv σ s
  | _ => True

instance : ∀ σ e, Decidable (ClosesIdle σ e)
  | σ, .closeSession s => inferInstanceAs (Decidable (NoRecv σ s))
  | _, .accept _ _ | _, .fill _ _ | _, .recv _ | _, .send _ | _, .enqueueSend _ _
  | _, .broadcast _ _ => isTrue trivial

def Server.flightSocks (σ : Server) : List (Option ℕ) := σ.accepts.inFlight.map AcceptOp.acceptSock

def Server.tabledSocks (σ : Server) : List (Option ℕ) := σ.tabled.map fun s => (σ.sessions s).sock

/-- Between handlers `n` accepts are in flight; every socket that was created is in flight
with one of them, the socket of one Session of the table, or was closed once; every
`OverlappedEx` is in flight or was deleted once. -/
structure Conserved (n : ℕ) (σ : Server) : Prop where
  inFlight : σ.accepts.inFlight.length = n
  socks : (σ.flightSocks ++ σ.tabledSocks ++ σ.closedSocks.map some).Perm
    ((List.range σ.accepts.nextSock).map some)
  ovs : (σ.accepts.inFlight.map AcceptOp.ov ++ σ.accepts.deleted).Perm (List.range σ.accepts.nextOv)

/-! ### The attempts of `PostAccept` -/

/-- There is no socket, or `AcceptEx` fails and is not pending. -/
def Env.attemptFails (env : Env) (σ : Server) : Bool := env.wsaSocketFails σ || env.acceptExFails σ

def Env.attemptSock (env : Env) (σ : Server) : Option ℕ :=
  if env.wsaSocketFails σ then none else some σ.accepts.nextSock

/-- An attempt has failed: its socket is closed and its `OverlappedEx` deleted. -/
def Server.failedAccept (env : Env) (σ : Server) : Server :=
  σ.side
    { σ.accepts with
      nextSock := σ.accepts.nextSock + (env.attemptSock σ).toList.length
      nextOv := σ.accepts.nextOv + 1
      deleted := σ.accepts.deleted ++ [σ.accepts.nextOv] }
    (σ.closedSocks ++ (env.attemptSock σ).toList)

/-- The server in front of attempt `k`, if the attempts before it failed. -/
def Server.attempt (env : Env) (σ : Server) (k : ℕ) : Server := (Server.failedAccept env)^[k] σ

/-- `k` attempts have failed, and of what they created nothing is left. -/
structure Released (k : ℕ) (σ τ : Server) : Prop where
  inFlight : τ.accepts.inFlight = σ.accepts.inFlight
  nextOv : τ.accepts.nextOv = σ.accepts.nextOv + k
  deleted : τ.accepts.deleted = σ.accepts.deleted ++ List.range' σ.accepts.nextOv k
  socks : ∃ m, τ.accepts.nextSock = σ.accepts.nextSock + m ∧
    τ.closedSocks = σ.closedSocks ++ List.range' σ.accepts.nextSock m

/-- One more `AcceptEx` is in flight, with the socket and the `OverlappedEx` that were
created last. -/
structure PostedOne (σ σ' : Server) : Prop where
  posted : ∃ ov sock, σ'.accepts.inFlight = σ.accepts.inFlight ++ [⟨ov, some sock⟩] ∧
    σ'.accepts.nextOv = ov + 1 ∧ σ'.accepts.nextSock = sock + 1 ∧
    σ'.accepts.deleted = σ.accepts.deleted ++ List.range' σ.accepts.nextOv (ov - σ.accepts.nextOv) ∧
    σ'.closedSocks =
      σ.closedSocks ++ List.range' σ.accepts.nextSock (sock - σ.accepts.nextSock)

/-- `PostAccept` returns, with one `AcceptEx` more in flight, and whatever attempts failed
gave back what they created. -/
structure PostsAccept (env : Env) (σ : Server) : Prop where
  returns : ∃ fuel σ', postAccept env fuel σ = some σ'
  released : ∀ k, (∀ j < k, env.attemptFails (σ.attempt env j) = true) →
    Released k σ (σ.attempt env k) ∧
      ∀ fuel, postAccept env (k + fuel) σ = postAccept env fuel (σ.attempt env k)
  one : ∀ fuel σ', postAccept env fuel σ = some σ' → PostedOne σ σ'

/-! ### The sends to come -/

/-- The batches that are still to be made for a Session. -/
def Server.batches (σ : Server) (s : ℕ) : ℕ :=
  if (σ.sessions s).closing then 0 else ((σ.sessions s).sendQueue.length + 15) / 16

/-- The completions of sends that are still to come. -/
def Server.pendingSends (σ : Server) (max : ℕ) : ℕ :=
  σ.sends.length + ∑ s ∈ Finset.range max, σ.batches s

def Event.completesSend : Event → Bool
  | .send _ => true
  | _ => false

end IocpChat
