import IocpChat.Lib.Runs
import IocpChat.Spec.SendPath

/-! The right to call `PostSend` is a token: free while `sending` is false, with
one worker inside `PostSend`, with the send in flight, or gone once the session
closes. The order of messages follows from where the token is. -/

namespace IocpChat.SendPath

open Runs

variable {W α : Type}

theorem popLoop_eq (room : ℕ) (queue : List α) :
    popLoop room queue = (queue.take room, queue.drop room) := by
  induction room generalizing queue with
  | zero => rfl
  | succ room ih => cases queue <;> simp [popLoop, ih]

theorem popBatch_append (queue : List α) :
    (popBatch queue).1 ++ (popBatch queue).2 = queue := by
  rw [popBatch, popLoop_eq, List.take_append_drop]

theorem popBatch_eq_nil {queue : List α} (h : (popBatch queue).1 = []) : queue = [] := by
  rw [popBatch, popLoop_eq] at h
  simpa using h

/-! ### Where the token is -/

inductive Loc (W : Type)
  | free
  | worker (w : W)
  | flight
  | gone

/-- How many sends are in flight. -/
def Loc.sends : Loc W → ℕ
  | .flight => 1
  | _ => 0

/-- The worker holds the token. -/
def Pc.holds : Pc α → Bool
  | .postLoad | .postPop | .postClear | .postOverlapped _ | .postSend _ => true
  | _ => false

def carriedAt (x : State W α) : Loc W → List α
  | .worker w => (x.pc w).carries
  | _ => []

structure TokenAt (x : State W α) (loc : Loc W) : Prop where
  worker : ∀ w, (x.pc w).holds = true ↔ loc = .worker w
  flight : x.inFlight.length = loc.sends
  free : x.sending = false ↔ loc = .free
  order : x.handed.flatten ++ carriedAt x loc ++ x.sendQueue = x.leftover ++ x.pushed

theorem Pc.inside_of_holds {p : Pc α} (h : p.holds = true) : p.inside = true := by
  cases p <;> simp_all [Pc.holds, Pc.inside]

theorem tokenAt_init : TokenAt (init : State W α) .free where
  worker w := by simp [init, Pc.holds]
  flight := rfl
  free := by simp [init]
  order := rfl

/-- Pushing adds to the end of what is still to be sent. -/
theorem TokenAt.push {x : State W α} {loc : Loc W} (h : TokenAt x loc) (m : α) :
    TokenAt { x with sendQueue := x.sendQueue ++ [m], pushed := x.pushed ++ [m] } loc where
  worker := h.worker
  flight := h.flight
  free := h.free
  order := by
    change x.handed.flatten ++ carriedAt x loc ++ (x.sendQueue ++ [m]) =
      x.leftover ++ (x.pushed ++ [m])
    rw [← List.append_assoc, h.order, List.append_assoc]

theorem TokenAt.no_holder {x : State W α} {loc : Loc W} (h : TokenAt x loc)
    (hloc : ∀ v, loc ≠ .worker v) (v : W) : (x.pc v).holds = false := by
  by_contra hv
  exact hloc v ((h.worker v).mp (by simpa using hv))

theorem TokenAt.eq_worker {x : State W α} {loc : Loc W} (h : TokenAt x loc) {w : W}
    (hw : (x.pc w).holds = true) : TokenAt x (.worker w) := (h.worker w).mp hw ▸ h

theorem Pc.eq_idle {p : Pc α} (h : p.isIdle = true) : p = .idle := by
  cases p <;> simp_all [Pc.isIdle]

section Step

variable [DecidableEq W]

/-- A worker that neither takes nor gives up the token leaves it where it is. -/
theorem TokenAt.goto {x : State W α} {loc : Loc W} (h : TokenAt x loc) {w : W} {p : Pc α}
    (hp : p.holds = (x.pc w).holds) (hc : p.carries = (x.pc w).carries) :
    TokenAt (x.goto w p) loc where
  worker v := by
    rw [← h.worker v]
    by_cases hv : v = w
    · subst hv; simp [State.goto, hp]
    · simp [State.goto, hv]
  flight := h.flight
  free := h.free
  order := by
    rw [show carriedAt (x.goto w p) loc = carriedAt x loc from ?_]
    · exact h.order
    · cases loc with
      | worker v =>
        by_cases hv : v = w
        · subst hv; simp [carriedAt, State.goto, hc]
        · simp [carriedAt, State.goto, hv]
      | _ => rfl

/-- Who holds the token after worker `w` took it. -/
theorem holds_goto_take {x : State W α} {w : W} {p : Pc α} (hx : ∀ v, (x.pc v).holds = false)
    (hp : p.holds = true) (v : W) :
    ((x.goto w p).pc v).holds = true ↔ Loc.worker w = Loc.worker v := by
  by_cases hv : v = w
  · subst hv; simp [State.goto, hp]
  · simp [State.goto, hv, hx v, Ne.symm hv]

/-- Nobody holds the token after worker `w` gave it up. -/
theorem holds_goto_drop {x : State W α} {w : W} {p : Pc α} {loc' : Loc W}
    (hx : ∀ v, (x.pc v).holds = true ↔ Loc.worker w = Loc.worker v) (hp : p.holds = false)
    (hloc : ∀ v, loc' ≠ .worker v) (v : W) :
    ((x.goto w p).pc v).holds = true ↔ loc' = .worker v := by
  have hne : ¬ loc' = .worker v := hloc v
  by_cases hv : v = w
  · subst hv; simp [State.goto, hp, hne]
  · have := (hx v).not
    simp only [Loc.worker.injEq] at this
    simp [State.goto, hv, hne, this.mpr (Ne.symm hv)]

/-- The next step of a worker moves the token at most once. -/
theorem TokenAt.next {x y : State W α} {loc : Loc W} (h : TokenAt x loc) {w : W} {ok : Bool}
    (hy : next x w ok = some y) : ∃ loc', TokenAt y loc' := by
  unfold SendPath.next at hy
  cases hpc : x.pc w with
  | idle => simp [hpc] at hy
  | enqueueLoad m =>
    simp only [hpc, Option.some.injEq] at hy
    subst hy
    refine ⟨loc, h.goto ?_ ?_⟩ <;> rw [hpc] <;> split_ifs <;> rfl
  | enqueuePush m =>
    simp only [hpc, Option.some.injEq] at hy
    subst hy
    exact ⟨loc, (h.push m).goto (by rw [hpc]; rfl) (by rw [hpc]; rfl)⟩
  | enqueueExchange =>
    simp only [hpc, Option.some.injEq] at hy
    subst hy
    cases hs : x.sending with
    | true =>
      have hg := h.goto (w := w) (p := .idle) (by rw [hpc]; rfl) (by rw [hpc]; rfl)
      exact ⟨loc, hg.worker, hg.flight, by rw [← h.free, hs], hg.order⟩
    | false =>
      -- the flag was free, so nobody holds the token and nothing is in flight
      obtain rfl := h.free.mp hs
      exact ⟨.worker w, holds_goto_take (h.no_holder (by simp)) rfl, h.flight, by simp,
        by simpa [carriedAt, State.goto, Pc.carries] using h.order⟩
  | postLoad =>
    simp only [hpc, Option.some.injEq] at hy
    subst hy
    have hw := h.eq_worker (w := w) (by rw [hpc]; rfl)
    split_ifs with hc
    · refine ⟨.gone, holds_goto_drop hw.worker rfl (by simp), hw.flight, ?_, ?_⟩
      · simpa [State.goto] using hw.free
      · simpa [carriedAt, State.goto, hpc, Pc.carries] using hw.order
    · exact ⟨.worker w, hw.goto (by rw [hpc]; rfl) (by rw [hpc]; rfl)⟩
  | postPop =>
    simp only [hpc, Option.some.injEq] at hy
    subst hy
    have hw := h.eq_worker (w := w) (by rw [hpc]; rfl)
    have horder := hw.order
    rw [← popBatch_append x.sendQueue] at horder
    refine ⟨.worker w, fun v => ?_, hw.flight, hw.free, ?_⟩
    · rw [← hw.worker v]
      by_cases hv : v = w
      · subst hv
        cases (popBatch x.sendQueue).1 <;> simp [State.goto, hpc, Pc.holds]
      · simp [State.goto, hv]
    · cases hb : (popBatch x.sendQueue).1 <;>
        simpa [carriedAt, State.goto, hpc, Pc.carries, hb] using horder
  | postClear =>
    simp only [hpc, Option.some.injEq] at hy
    subst hy
    have hw := h.eq_worker (w := w) (by rw [hpc]; rfl)
    refine ⟨.free, holds_goto_drop hw.worker rfl (by simp), hw.flight, by simp, ?_⟩
    simpa [carriedAt, State.goto, hpc, Pc.carries] using hw.order
  | postOverlapped toSend =>
    simp only [hpc, Option.some.injEq] at hy
    subst hy
    exact ⟨loc, h.goto (by rw [hpc]; rfl) (by rw [hpc]; rfl)⟩
  | postSend toSend =>
    simp only [hpc] at hy
    have hw := h.eq_worker (w := w) (by rw [hpc]; rfl)
    have horder := hw.order
    have hnone : x.inFlight = [] := List.length_eq_zero_iff.mp hw.flight
    simp only [carriedAt, hpc, Pc.carries] at horder
    split_ifs at hy with hok <;> simp only [Option.some.injEq] at hy <;> subst hy
    · refine ⟨.flight, holds_goto_drop hw.worker rfl (by simp), by simp [hnone, Loc.sends], ?_, ?_⟩
      · simpa [State.goto] using hw.free
      · simpa [carriedAt, State.goto] using horder
    · refine ⟨.gone, holds_goto_drop hw.worker rfl (by simp), hw.flight, ?_, ?_⟩
      · simpa [State.goto] using hw.free
      · simpa [carriedAt, State.goto] using horder
  | closeExchange byPostSend =>
    simp only [hpc, Option.some.injEq] at hy
    subst hy
    have hg : TokenAt (x.goto w (if x.closing then .idle else .closeRest byPostSend)) loc := by
      refine h.goto ?_ ?_ <;> rw [hpc] <;> split_ifs <;> rfl
    exact ⟨loc, hg.worker, hg.flight, hg.free, hg.order⟩
  | closeRest byPostSend =>
    simp only [hpc, Option.some.injEq] at hy
    subst hy
    have hg := h.goto (w := w) (p := .idle) (by rw [hpc]; rfl) (by rw [hpc]; rfl)
    exact ⟨loc, hg.worker, hg.flight, hg.free, hg.order⟩

theorem TokenAt.step {x y : State W α} {loc : Loc W} (h : TokenAt x loc) {a : Act W α}
    (hfresh : FreshAccept x a) (hy : step x a = some y) : ∃ loc', TokenAt y loc' := by
  cases a with
  | accept =>
    obtain ⟨hflight, hout⟩ := hfresh rfl
    simp only [SendPath.step] at hy
    split_ifs at hy
    simp only [Option.some.injEq] at hy
    subst hy
    have hnone (v : W) : (x.pc v).holds = false := by
      by_contra hv
      have := Pc.inside_of_holds (by simpa using hv : (x.pc v).holds = true)
      rw [hout v] at this
      contradiction
    exact ⟨.free, fun v => by simp [hnone v], by simp [hflight, Loc.sends], by simp,
      by simp [carriedAt]⟩
  | enqueue w m =>
    simp only [SendPath.step] at hy
    split_ifs at hy with hidle
    simp only [Option.some.injEq] at hy
    subst hy
    have hpc := Pc.eq_idle hidle
    exact ⟨loc, h.goto (by rw [hpc]; rfl) (by rw [hpc]; rfl)⟩
  | complete w i =>
    simp only [SendPath.step] at hy
    split_ifs at hy with hidle
    simp only [Option.some.injEq] at hy
    subst hy
    have hlen := h.flight
    have hi := hidle.2
    -- something is in flight, so that is where the token is
    obtain rfl : loc = .flight := by
      cases loc <;> simp_all [Loc.sends]
    refine ⟨.worker w, holds_goto_take (h.no_holder (by simp)) rfl, ?_, ?_, ?_⟩
    · simp only [Loc.sends] at hlen ⊢
      rw [List.length_eraseIdx_of_lt hi, hlen]
    · simpa [State.goto] using h.free
    · simpa [carriedAt, State.goto, Pc.carries] using h.order
  | close w =>
    simp only [SendPath.step] at hy
    split_ifs at hy with hidle
    simp only [Option.some.injEq] at hy
    subst hy
    have hpc := Pc.eq_idle hidle
    exact ⟨loc, h.goto (by rw [hpc]; rfl) (by rw [hpc]; rfl)⟩
  | next w ok => exact h.next hy

end Step

/-! ### One send in flight, in order -/

theorem Pc.carries_of_not_holds {p : Pc α} (h : p.holds = false) : p.carries = [] := by
  cases p <;> simp_all [Pc.holds, Pc.carries]

theorem TokenAt.oneSend {x : State W α} {loc : Loc W} (h : TokenAt x loc) : OneSend x := by
  refine ⟨?_, fun w toSend hw => ?_⟩
  · rw [h.flight]
    cases loc <;> simp [Loc.sends]
  · have hholds : (x.pc w).holds = true := by rcases hw with hw | hw <;> rw [hw] <;> rfl
    exact List.length_eq_zero_iff.mp (h.eq_worker hholds).flight

theorem TokenAt.popped {x : State W α} {loc : Loc W} (h : TokenAt x loc) :
    Popped x (carriedAt x loc) := by
  have hother : ∀ v, loc ≠ .worker v → (x.pc v).carries = [] := fun v hv =>
    Pc.carries_of_not_holds (by by_contra hc; exact hv ((h.worker v).mp (by simpa using hc)))
  cases loc with
  | worker w => exact .inl ⟨w, rfl, fun v hv => hother v (by simpa using Ne.symm hv)⟩
  | free => exact .inr ⟨rfl, fun w => hother w (by simp)⟩
  | flight => exact .inr ⟨rfl, fun w => hother w (by simp)⟩
  | gone => exact .inr ⟨rfl, fun w => hother w (by simp)⟩

theorem Popped.unique {x : State W α} {l l' : List α} (h : Popped x l) (h' : Popped x l') :
    l = l' := by
  rcases h with ⟨w, rfl, hw⟩ | ⟨rfl, hw⟩
  · rcases h' with ⟨v, rfl, hv⟩ | ⟨rfl, hv⟩
    · by_cases hvw : v = w
      · rw [hvw]
      · rw [hw v hvw, hv w (Ne.symm hvw)]
    · exact hv w
  · rcases h' with ⟨v, rfl, -⟩ | ⟨rfl, -⟩
    · exact (hw v).symm
    · rfl

theorem TokenAt.fifo_iff {x : State W α} {loc : Loc W} (h : TokenAt x loc) :
    Fifo x ↔ x.leftover = [] := by
  constructor
  · rintro ⟨popped, hpopped, horder⟩
    have := h.order
    rw [← hpopped.unique h.popped, horder] at this
    simpa using this
  · intro hleft
    exact ⟨_, h.popped, by rw [h.order, hleft, List.nil_append]⟩

section Runs

variable [DecidableEq W]

theorem token_run {acts : List (Act W α)} {x : State W α}
    (h : Exec step FreshAccept init acts x) : ∃ loc, TokenAt x loc :=
  Exec.invariant (P := fun x => ∃ loc, TokenAt x loc)
    (fun _ _ _ ⟨_, ht⟩ hfresh hy => ht.step hfresh hy) h ⟨.free, tokenAt_init⟩

/-- In every interleaving at most one send is in flight, and the messages of a
connection keep their order exactly if the accept found an empty queue. -/
theorem send_order_iff {acts : List (Act W α)} {x : State W α}
    (h : Exec step FreshAccept init acts x) : OneSend x ∧ (Fifo x ↔ x.leftover = []) := by
  obtain ⟨loc, ht⟩ := token_run h
  exact ⟨ht.oneSend, ht.fifo_iff⟩

/-- Worker 0 has a batch in flight and worker 1 queued a message behind it when
worker 2 closes; the next connection finds that message in the queue. -/
def reuseActs : List (Act (Fin 3) ℕ) :=
  [.accept, .enqueue 0 10, .next 0 true, .next 0 true, .next 0 true, .next 0 true, .next 0 true,
    .next 0 true, .next 0 true, .enqueue 1 20, .next 1 true, .next 1 true, .next 1 true,
    .close 2, .next 2 true, .next 2 true, .complete 0 0, .next 0 true, .accept]

theorem send_order_broken :
    ∃ (acts : List (Act (Fin 3) ℕ)) (x : State (Fin 3) ℕ),
      Exec step FreshAccept init acts x ∧ x.closing = false ∧ ¬ Fifo x := by
  obtain ⟨x, hrun, hclosing, hleft⟩ : ∃ x : State (Fin 3) ℕ,
      Exec step FreshAccept init reuseActs x ∧ x.closing = false ∧ x.leftover ≠ [] :=
    Exec.exists_of_runIf (by decide)
  obtain ⟨loc, ht⟩ := token_run hrun
  exact ⟨reuseActs, x, hrun, hclosing, fun hfifo => hleft (ht.fifo_iff.mp hfifo)⟩

theorem send_order_three_workers :
    ∃ x : State (Fin 3) ℕ, Exec step FreshAccept init (reuseActs.take 13) x ∧ OneSend x ∧
      (Fifo x ↔ x.leftover = []) := by
  obtain ⟨x, hrun, -⟩ : ∃ x : State (Fin 3) ℕ,
      Exec step FreshAccept init (reuseActs.take 13) x ∧ x.inFlight ≠ [] :=
    Exec.exists_of_runIf (by decide)
  exact ⟨x, hrun, send_order_iff hrun⟩

end Runs

end IocpChat.SendPath
