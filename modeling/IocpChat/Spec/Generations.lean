import IocpChat.Spec.Moves

/-! A Session serves one connection after the other. What the completions of one connection may
do to the others, and whose messages are sent. -/

namespace IocpChat

open Relation (ReflTransGen)

/-- No operation of the Session is in flight. -/
def Idle (σ : Server) (s : ℕ) : Prop :=
  (∀ op ∈ σ.recvs, op.sess ≠ s) ∧ ∀ op ∈ σ.sends, op.sess ≠ s

instance (σ : Server) (s : ℕ) : Decidable (Idle σ s) :=
  inferInstanceAs (Decidable ((∀ op ∈ σ.recvs, op.sess ≠ s) ∧ ∀ op ∈ σ.sends, op.sess ≠ s))

/-- A receive of a closed Session completes without bytes. -/
def LateEmpty (σ : Server) : Event → Prop
  | .recv i => ∀ op ∈ σ.recvs[i]?, ∀ data ∈ op.data,
      data = [] ∨ (σ.sessions op.sess).closing = false
  | _ => True

instance : ∀ σ e, Decidable (LateEmpty σ e)
  | σ, .recv i => inferInstanceAs (Decidable (∀ op ∈ σ.recvs[i]?, ∀ data ∈ op.data,
      data = [] ∨ (σ.sessions op.sess).closing = false))
  | _, .accept _ _ | _, .fill _ _ | _, .send _ | _, .enqueueSend _ _ | _, .broadcast _ _
  | _, .closeSession _ => isTrue trivial

/-- The condition on every step of a run. -/
def Separate (σ : Server) (e : Event) : Prop := AcceptsFrom Idle σ e ∧ LateEmpty σ e

instance (σ : Server) (e : Event) : Decidable (Separate σ e) :=
  inferInstanceAs (Decidable (AcceptsFrom Idle σ e ∧ LateEmpty σ e))

/-- The Session and the connection of the operation whose completion is handled. -/
def completes (σ : Server) : Event → Option (ℕ × ℕ)
  | .recv i => (σ.recvs[i]?).bind fun op => op.data.map fun _ => (op.sess, op.conn)
  | .send i => (σ.sends[i]?).map fun op => (op.sess, op.conn)
  | _ => none

/-- Ring, queue, flags, buffer, table entry and socket of the Session stay. -/
structure Untouched (σ σ' : Server) (t : ℕ) : Prop where
  session : σ'.sessions t = σ.sessions t
  entry : ∀ k, σ'.sessionTable.lookup k = some t ↔ σ.sessionTable.lookup k = some t
  socket : σ'.closedSocks = σ.closedSocks

/-- Only Session `s` changes, and no socket but its own is closed. -/
structure Confined (s : ℕ) (σ σ' : Server) : Prop where
  sessions : ∀ t, t ≠ s → σ'.sessions t = σ.sessions t
  sock : (σ'.sessions s).sock = (σ.sessions s).sock
  entries : ∀ k t, t ≠ s → (σ'.sessionTable.lookup k = some t ↔ σ.sessionTable.lookup k = some t)
  sockets : ∀ sock ∈ σ'.closedSocks, sock ∈ σ.closedSocks ∨ (σ.sessions s).sock = some sock

/-- What is confined to Session `s`, and calls of `Broadcast` that leave `s` out. -/
abbrev Spreads (env : Env) (s : ℕ) : Server → Server → Prop :=
  ReflTransGen fun σ σ' => Confined s σ σ' ∨ ∃ data, σ' = broadcast env data (some s) σ

/-- The operation whose completion is handled brings bytes. -/
def brings (σ : Server) : Event → Bool
  | .recv i => (σ.recvs[i]?).any fun op => op.data.any (· ≠ [])
  | _ => false

/-- The handler of a completion of Session `s` for connection `k` stays with it. It reaches no
later connection of the Session, and nothing at all if the connection was closed. Without
`bytes` it changes no other Session; with them it reaches others through `Broadcast` only,
and never their rings. -/
structure Isolated (env : Env) (bytes : Bool) (σ σ' : Server) (s k : ℕ) : Prop where
  untouched : ∀ t, (σ.sessions t).id ≠ k → (t = s ∨ ¬ σ.Open s) → Untouched σ σ' t
  confined : bytes = false → Confined s σ σ'
  spreads : Spreads env s σ σ'
  rings : ∀ t, t ≠ s → (σ'.sessions t).rx = (σ.sessions t).rx

/-- The accept finds nothing in the `sendQueue` of the Session it takes. -/
def EmptyQueue (σ : Server) (s : ℕ) : Prop := (σ.sessions s).sendQueue = []

instance (σ : Server) (s : ℕ) : Decidable (EmptyQueue σ s) :=
  inferInstanceAs (Decidable ((σ.sessions s).sendQueue = []))

/-- Every message handed to `WSASend` for connection `k` was pushed by an
`EnqueueSend` executed while the Session carried `k`. -/
def OwnMessages (σ : Server) : Prop :=
  ∀ s k sock batch ok, Effect.wsaSend s k sock batch ok ∈ σ.trace → ∀ m ∈ batch, m.conn = k

end IocpChat
