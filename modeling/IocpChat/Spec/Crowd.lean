import IocpChat.Lib.Runs
import IocpChat.Spec.SendPath
import IocpChat.Spec.Speakers

/-! The server with any number of workers, all of it but the bytes: the front of `Speakers`, and
for each Session a sending side as in `SendPath`. A worker takes the steps that belong to both at
once: the push of `EnqueueSend`, its test of `closing`, and what `AcceptCompletion` and
`CloseSession` do to a Session. -/

namespace IocpChat.Crowd

open SendPath (CleanAccept Strands)

structure State (n : ℕ) where
  front : Speakers.State n
  back : ℕ → SendPath.State (Fin n) Speakers.Msg
  /-- The Session in whose sending side the worker is. -/
  inside : Fin n → Option ℕ

def init (n maxSessions : ℕ) : State n :=
  ⟨Speakers.init n maxSessions, fun _ => SendPath.init, fun _ => none⟩

inductive Act (n : ℕ)
  /-- A step of the front. -/
  | front (a : Speakers.Act n)
  /-- The worker takes its next step in `EnqueueSend`, behind the push, or in `PostSend`. -/
  | next (w : Fin n) (sendOk : Bool)
  /-- The worker dequeues the completion of a send. -/
  | complete (w : Fin n) (s i : ℕ)
  deriving DecidableEq

variable {n : ℕ}

/-- The steps that the sending side of a Session takes with a step of the front. -/
def State.echo (x : State n) : Speakers.Act n → Option (ℕ × List (SendPath.Act (Fin n) Speakers.Msg))
  | .accept .. => x.front.base.server.free.head?.map fun s => (s, [.accept])
  | .close w s => some (s, if x.inside w = none then [.close w, .next w true] else [.next w true])
  | .work w =>
    match x.front.base.worker w with
    | .release s => some (s, [.next w true])
    | _ => none
  | .call w =>
    match x.front.call w with
    | some ⟨m, s :: _, false⟩ => some (s, [.enqueue w m, .next w true])
    | some ⟨_, s :: _, true⟩ => some (s, [.next w true])
    | _ => none
  | _ => none

/-- A worker in a sending side comes back to the front for the push, for the `CloseSession` behind
a failed `WSASend`, and when it is through. -/
def State.Ready (x : State n) : Speakers.Act n → Prop
  | .work _ => True
  | .close w s => x.inside w = none ∨ x.inside w = some s ∧ (x.back s).pc w = .closeExchange true
  | .call w => x.inside w = none ∨ (x.front.call w).any Speakers.Call.loaded = true
  | .accept w _ | .complete w _ | .post w | .recv w _ | .leave w | .announce w _ | .answer w _ =>
    x.inside w = none

instance (x : State n) : (a : Speakers.Act n) → Decidable (x.Ready a)
  | .work _ => inferInstanceAs (Decidable True)
  | .close .. => inferInstanceAs (Decidable (_ ∨ _))
  | .call _ => inferInstanceAs (Decidable (_ ∨ _))
  | .accept .. | .complete .. | .post _ | .recv .. | .leave _ | .announce .. | .answer .. =>
    inferInstanceAs (Decidable (_ = _))

/-- The sending side of a Session takes some steps of a worker, and the worker stays there until it
is through. -/
def State.stepBack (x : State n) (w : Fin n) (s : ℕ) (steps : List (SendPath.Act (Fin n) Speakers.Msg)) :
    Option (State n) :=
  (Runs.runIf SendPath.step (fun _ _ => True) (x.back s) steps).map fun z =>
    { x with
      back := Function.update x.back s z
      inside := Function.update x.inside w (if (z.pc w).isIdle then none else some s) }

def stepFront (x : State n) (a : Speakers.Act n) : Option (State n) :=
  (Speakers.step x.front a).bind fun front =>
    match x.echo a with
    | none => some { x with front }
    | some (s, steps) => State.stepBack { x with front } a.worker s steps

def stepNext (x : State n) (w : Fin n) (sendOk : Bool) : Option (State n) :=
  match x.inside w with
  | none => none
  | some s =>
    match (x.back s).pc w with
    | .enqueuePush _ | .closeExchange _ | .closeRest _ => none
    | _ => x.stepBack w s [.next w sendOk]

def step (x : State n) : Act n → Option (State n)
  | .front a => if x.Ready a then stepFront x a else none
  | .next w sendOk => stepNext x w sendOk
  | .complete w s i =>
    if x.inside w = none ∧ x.front.Free w ∧ x.front.turn w = .none then
      x.stepBack w s [.complete w i]
    else none

/-- What a sending side asks of the front: the Session that is taken from the pool has nothing in
flight and nothing queued, and is on the list of no `Broadcast`; none is answered between its
`Acquire` and its entry into the table. -/
def State.Apart (x : State n) : Speakers.Act n → Prop
  | .accept .. => ∀ s ∈ x.front.base.server.free.head?,
      CleanAccept (x.back s) .accept ∧ ∀ w, ∀ c ∈ x.front.call w, s ∉ c.todo
  | .answer _ s => ∀ v, (x.front.base.worker v).accepting ≠ some s
  | .close .. | .work _ | .complete .. | .post _ | .recv .. | .leave _ | .announce .. | .call _ => True

instance (x : State n) : (a : Speakers.Act n) → Decidable (x.Apart a)
  | .accept .. => inferInstanceAs (Decidable (∀ s ∈ _, _ ∧ _))
  | .answer .. => inferInstanceAs (Decidable (∀ _, _ ≠ _))
  | .close .. | .work _ | .complete .. | .post _ | .recv .. | .leave _ | .announce .. | .call _ =>
    inferInstanceAs (Decidable True)

/-- A Session is taken from the pool only when nothing of an earlier connection is under way, none
is closed or answered before its entry into the table, and no exchange of `EnqueueSend` strands a
message. -/
def State.Prompt (x : State n) : Act n → Prop
  | .next w _ => ∀ s ∈ x.inside w, ¬ Strands (x.back s) w
  | .front a => x.front.Timely a ∧ x.Apart a
  | .complete .. => True

instance (x : State n) : (a : Act n) → Decidable (x.Prompt a)
  | .next .. => inferInstanceAs (Decidable (∀ s ∈ _, ¬ _))
  | .front _ => inferInstanceAs (Decidable (_ ∧ _))
  | .complete .. => inferInstanceAs (Decidable True)

end IocpChat.Crowd
