import IocpChat.Spec.SendPath
import IocpChat.Spec.Session

/-! The interface `ISendClose` that the server offers to its packet handler. -/

namespace IocpChat

open SendPath (popBatch)

variable (env : Env)

def closeSession (s : ℕ) (σ : Server) : Server :=
  let x := σ.sessions s
  if x.closing then σ
  else
    { σ.set s { x with closing := true, rxBuf := none } with
      closedSocks := σ.closedSocks ++ x.sock.toList
      bufferPool := match x.rxBuf with
        | some buf => σ.bufferPool.release buf
        | none => σ.bufferPool
      sessionTable := σ.sessionTable.erase x.id
      statCurConn := σ.statCurConn - 1
      free := s :: σ.free
      trace := σ.trace ++ [.closed s x.id] }

/-- `session->sendQueue.push` -/
def Server.push (σ : Server) (s : ℕ) (data : List UInt8) : Server :=
  let x := σ.sessions s
  σ.set s { x with sendQueue := x.sendQueue ++ [⟨x.id, data⟩] }

/-- `session->sending = b` -/
def Server.setSending (σ : Server) (s : ℕ) (b : Bool) : Server :=
  σ.set s { σ.sessions s with sending := b }

/-- The Session after a `PostSend` has popped its batch. -/
def Server.popSend (σ : Server) (s : ℕ) : Server :=
  let x := σ.sessions s
  σ.set s { x with sendQueue := (popBatch x.sendQueue).2 }

def postSend (s : ℕ) (σ : Server) : Server :=
  let x := σ.sessions s
  if x.closing then σ
  else
    let toSend := (popBatch x.sendQueue).1
    let σ := σ.popSend s
    if toSend.isEmpty then σ.setSending s false
    else
      let ok := !env.wsaSendFails σ s
      let σ := σ.emit (.wsaSend s x.id x.sock toSend ok)
      if ok then { σ with sends := σ.sends ++ [⟨s, x.id, toSend⟩] } else closeSession s σ

def enqueueSend (s : ℕ) (data : List UInt8) (σ : Server) : Server :=
  if (σ.sessions s).closing then σ
  else
    let σ := σ.push s data
    if (σ.sessions s).sending then σ else postSend env s (σ.setSending s true)

/-- `statCurConn_` as an `int32_t` -/
def getCurrentConnectionCount (σ : Server) : Int32 := Int32.ofInt σ.statCurConn

/-- `Broadcast`: the snapshot of the table is taken before the first message is queued. -/
def broadcast (data : List UInt8) (exclude : Option ℕ) (σ : Server) : Server :=
  (env.order σ).foldl
    (fun σ s => if some s = exclude then σ else enqueueSend env s data σ) σ

end IocpChat
