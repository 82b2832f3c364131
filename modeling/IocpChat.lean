import IocpChat.Proofs.Client
import IocpChat.Proofs.WakeUp
import IocpChat.Proofs.Messages
import IocpChat.Proofs.Buffers
import IocpChat.Proofs.AfterClose
import IocpChat.Proofs.Receive
import IocpChat.Proofs.Stop
import IocpChat.Proofs.SendLoop
import IocpChat.Proofs.Sockets
import IocpChat.Proofs.SendMemory
import IocpChat.Proofs.RingCopies
import IocpChat.Proofs.Names
import IocpChat.Proofs.Outputs
import IocpChat.Proofs.Retries
import IocpChat.Proofs.Broadcast
import IocpChat.Proofs.Relay
import IocpChat.Proofs.Drain
import IocpChat.Proofs.Shutdown
import IocpChat.Proofs.Workers
import IocpChat.Proofs.RecvPath
import IocpChat.Proofs.ClientRun
import IocpChat.Proofs.Speakers
import IocpChat.Proofs.Crowd
