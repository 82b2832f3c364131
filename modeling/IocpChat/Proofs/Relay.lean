import IocpChat.Proofs.ChatRoom
import IocpChat.Proofs.Names

/-! The way of a line from the client that sends it to the clients that show it: what is
published is the packets of the record, in their order, and all connections hear it in that
order. -/

namespace IocpChat

open ChatRoom (follow)
open Runs (Exec)

variable {env : Env} {crt : StrncpyS} {s t k : ℕ} {σ : Server}

/-! ### What is published -/

def Handler.announces : Handler × List UInt8 → Option (List UInt8)
  | (.chatMessage, packet) => some (chatRelay (ChatMessagePacket.ofBytes packet).safe)
  | (.exit, packet) => some (exitNotice (PKExit.new.deserialize packet))
  | (.login, _) | (.userCount, _) => none

/-- A client that calls itself "a" and says "hi". -/
def greets : List Input := [.line [97] 0 [36], .line [104, 105] 0 [300]]

end IocpChat
