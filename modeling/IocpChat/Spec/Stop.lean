import IocpChat.Spec.Server

/-! The closing phase of `IOCP_EchoServer::Stop`. All other threads have been joined, so
the only question about `sessionMtx_` is whether this thread holds it. -/

namespace IocpChat

variable (env : Env)

namespace Stopping

end Stopping

/-- `sessionTable_.erase(session->id)` -/
def Server.eraseEntry (σ : Server) (s : ℕ) : Server :=
  { σ with sessionTable := σ.sessionTable.erase (σ.sessions s).id }

end IocpChat
