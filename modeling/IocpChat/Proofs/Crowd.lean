import IocpChat.Proofs.Speakers
import IocpChat.Proofs.WakeUp
import IocpChat.Spec.Crowd

/-! The front and the sending sides fit together: what `Broadcast` and `EnqueueSend` have pushed is
what the sending side of the Session hands to `WSASend`. So what holds of each part in every
interleaving holds of the server. -/

namespace IocpChat.SendPath

variable {W α : Type} [DecidableEq W] {x y : State W α} {v w : W} {m : α} {ok : Bool}

/-! ### What a step changes -/

theorem runIf_one {a : Act W α} :
    Runs.runIf step (fun _ _ => True) x [a] = step x a := by
  simp [Runs.runIf]

/-- A worker's next step leaves the other workers where they are; only the push changes what was
pushed, and only the exchange in `CloseSession` changes `closing`. -/
theorem next_frame (h : next x w ok = some y) : (∀ v, v ≠ w → y.pc v = x.pc v) ∧
    ((∀ m, x.pc w ≠ .enqueuePush m) → y.pushed = x.pushed) ∧
      ((∀ b, x.pc w ≠ .closeExchange b) → y.closing = x.closing) ∧ y.leftover = x.leftover ∧
        (x.pooled = true → y.pooled = true) := by
  unfold next at h
  cases hpc : x.pc w with
  | idle =>
    rw [hpc] at h
    contradiction
  | enqueuePush m =>
    rw [hpc] at h
    obtain rfl := Option.some.inj h
    exact ⟨fun v hv => Function.update_of_ne hv .., fun hnot => absurd rfl (hnot m), fun _ => rfl, rfl, id⟩
  | closeExchange b =>
    rw [hpc] at h
    obtain rfl := Option.some.inj h
    exact ⟨fun v hv => Function.update_of_ne hv .., fun _ => rfl, fun hnot => absurd rfl (hnot b), rfl, id⟩
  | closeRest b =>
    rw [hpc] at h
    obtain rfl := Option.some.inj h
    exact ⟨fun v hv => Function.update_of_ne hv .., fun _ => rfl, fun _ => rfl, rfl, fun _ => rfl⟩
  | postSend toSend =>
    rw [hpc] at h
    cases ok with
    | true =>
      obtain rfl := Option.some.inj h
      exact ⟨fun v hv => Function.update_of_ne hv .., fun _ => rfl, fun _ => rfl, rfl, id⟩
    | false =>
      obtain rfl := Option.some.inj h
      exact ⟨fun v hv => Function.update_of_ne hv .., fun _ => rfl, fun _ => rfl, rfl, id⟩
  | _ =>
    rw [hpc] at h
    obtain rfl := Option.some.inj h
    exact ⟨fun v hv => Function.update_of_ne hv .., fun _ => rfl, fun _ => rfl, rfl, id⟩

theorem goto_goto (x : State W α) (w : W) (p q : Pc α) : (x.goto w p).goto w q = x.goto w q := by
  simp [State.goto]

theorem runIf_load (h : x.pc w = .idle) (m : α) :
    Runs.runIf step (fun _ _ => True) x [.enqueue w m, .next w true] =
      some (x.goto w (if x.closing then .idle else .enqueuePush m)) := by
  have hnext : next (x.goto w (.enqueueLoad m)) w true =
      some (x.goto w (if x.closing then .idle else .enqueuePush m)) := by
    rw [next, x.pc_goto_self]
    exact congrArg some (goto_goto x w _ _)
  simp [Runs.runIf, step, h, Pc.isIdle, hnext]

theorem runIf_close (h : x.pc w = .idle) :
    Runs.runIf step (fun _ _ => True) x [.close w, .next w true] =
      some { x.goto w (if x.closing then .idle else .closeRest false) with closing := true } := by
  have hnext : next (x.goto w (.closeExchange false)) w true =
      some { x.goto w (if x.closing then .idle else .closeRest false) with closing := true } := by
    rw [next, x.pc_goto_self]
    exact congrArg (fun z : State W α => some { z with closing := true }) (goto_goto x w _ _)
  simp [Runs.runIf, step, h, Pc.isIdle, hnext]

omit [DecidableEq W] in
theorem wakes_next (h : x.pc w ≠ .enqueueExchange) : Wakes x (.next w ok) := by
  refine ⟨⟨nofun, nofun⟩, ?_⟩
  intro v ok' heq hstrands
  obtain ⟨rfl, -⟩ := Act.next.inj heq
  exact h hstrands.1

theorem run_next (h : x.pc w ≠ .enqueueExchange)
    (hy : Runs.runIf step (fun _ _ => True) x [.next w ok] = some y) :
    Runs.Exec step Wakes x [.next w ok] y :=
  .cons (wakes_next h) (runIf_one.symm.trans hy) (.nil y)

theorem run_call {a : Act W α} (ha : Wakes x a)
    (hpc : ∀ u, step x a = some u → u.pc w ≠ .enqueueExchange)
    (hy : Runs.runIf step (fun _ _ => True) x [a, .next w ok] = some y) :
    Runs.Exec step Wakes x [a, .next w ok] y := by
  cases Runs.Exec.of_runIf hy with
  | @cons _ u _ _ _ _ hu hrest =>
    cases hrest with
    | cons _ hnext hend =>
      cases hend
      exact .cons ha hu (.cons (wakes_next (hpc u hu)) hnext (.nil y))

theorem leftover_run {acts : List (Act W α)} (h : Runs.Exec step Wakes init acts x) :
    x.leftover = [] := by
  refine h.invariant (P := fun x => x.leftover = []) ?_ rfl
  intro x a y hx hok hstep
  cases a with
  | accept =>
    obtain ⟨-, hy⟩ := Option.ite_none_right_eq_some.mp hstep
    obtain rfl := Option.some.inj hy
    exact hok.1.2 rfl
  | enqueue w m | complete w i | close w =>
    obtain ⟨-, hy⟩ := Option.ite_none_right_eq_some.mp hstep
    obtain rfl := Option.some.inj hy
    exact hx
  | next w ok => exact (next_frame hstep).2.2.2.1.trans hx

theorem fifo_run {acts : List (Act W α)} (h : Runs.Exec step Wakes init acts x) :
    OneSend x ∧ Fifo x := by
  obtain ⟨loc, ht⟩ := token_run (h.imp fun _ _ hok => hok.1.1)
  exact ⟨ht.oneSend, ht.fifo_iff.mpr (leftover_run h)⟩

/-- With nobody in the send path and nothing in flight, all that was pushed has been handed over. -/
theorem handed_run {acts : List (Act W α)} (h : Runs.Exec step Wakes init acts x)
    (hout : ∀ w, (x.pc w).inside = false) (hflight : x.inFlight = []) (hopen : x.closing = false) :
    x.handed.flatten = x.pushed := by
  obtain ⟨popped, hpopped, horder⟩ := (fifo_run h).2
  have hcarries (w : W) : (x.pc w).carries = [] := by
    refine Pc.carries_of_not_holds ?_
    by_contra hholds
    have hin := Pc.inside_of_holds (Bool.eq_true_of_not_eq_false hholds)
    rw [hout w] at hin
    contradiction
  have hnil : popped = [] := by
    rcases hpopped with ⟨w, hw, -⟩ | ⟨hnil, -⟩
    · rw [← hw, hcarries w]
    · exact hnil
  rwa [hnil, wakes_drained h hout hflight hopen, List.append_nil, List.append_nil] at horder

end IocpChat.SendPath

namespace IocpChat.Workers

variable {n cap s : ℕ} {x y : State n} {w : Fin n} {place : ℕ → Place n}

theorem Inv.closing_of_work (h : Inv cap place x) (hstep : stepWork x w = some y) (s : ℕ) :
    (y.server.sessions s).closing = (x.server.sessions s).closing := by
  unfold stepWork at hstep
  cases hw : x.worker w with
  | idle =>
    rw [hw] at hstep
    contradiction
  | reopen t =>
    have hplace := h.agrees.place_eq (w := w) (i := t) (by rw [hw]; rfl)
    have hopen := h.kept.closing_eq (s := t) (by rw [hplace, hw]; rfl)
    rw [hplace, hw] at hopen
    rw [hw] at hstep
    obtain rfl := Option.some.inj hstep
    exact set_same (σ := x.server) (s := t) (f := Session.closing) (by exact hopen.symm) s
  | number t _ | sending t | allocate t | giveBuf t =>
    rw [hw] at hstep
    obtain rfl := Option.some.inj hstep
    exact set_same (σ := x.server) (s := t) (f := Session.closing) (by rfl) s
  | _ =>
    rw [hw] at hstep
    obtain rfl := Option.some.inj hstep
    rfl

theorem close_frame (hstep : step x (.close w s) = some y) :
    (y.server.sessions s).closing = true ∧
      (∀ r, r ≠ s → (y.server.sessions r).closing = (x.server.sessions r).closing) ∧
      (∀ v, v ≠ w → y.worker v = x.worker v) ∧
      (y.worker w = if (x.server.sessions s).closing then .idle else .closeSock s) ∧
      y.server.free = x.server.free := by
  obtain ⟨⟨hw, -⟩, hy⟩ := Option.ite_none_right_eq_some.mp hstep
  obtain rfl := Option.some.inj hy
  by_cases hc : (x.server.sessions s).closing = true
  · rw [stepClose, if_pos hc, if_pos hc]
    exact ⟨hc, fun _ _ => rfl, fun _ _ => rfl, hw, rfl⟩
  · rw [stepClose, if_neg hc, if_neg hc]
    refine ⟨?_, ?_, fun v hv => Function.update_of_ne hv .., goto_worker .., rfl⟩
    · rw [State.goto, Server.flag, Server.sessions_set, if_pos rfl]
    · intro r hr
      rw [State.goto, Server.flag, Server.sessions_set, if_neg hr]

theorem Inv.not_tabled (h : Inv cap place x) (hw : (x.worker w).accepting = some s) :
    s ∉ x.server.tabled := by
  have hheld : (x.worker w).session = some s ∧ (x.worker w).tabled = false := by
    cases hp : x.worker w <;> rw [hp] at hw <;> first | contradiction | exact ⟨hw, rfl⟩
  intro hmem
  obtain ⟨k, hk⟩ := Server.mem_tabled.mp hmem
  have htabled := ((h.kept.table k s).mp hk).2
  rw [h.agrees.place_eq hheld.1, isTabled, hheld.2] at htabled
  contradiction

theorem accept_frame {free : List ℕ} {acceptSock : Option ℕ} (hf : x.server.free = s :: free)
    (hstep : step x (.accept w acceptSock) = some y) :
    (y.server.sessions s).closing = false ∧
      (∀ r, r ≠ s → (y.server.sessions r).closing = (x.server.sessions r).closing) ∧
      (∀ v, v ≠ w → y.worker v = x.worker v) ∧ y.worker w = .number s acceptSock ∧
      y.server.free = free := by
  obtain ⟨-, hy⟩ := Option.ite_none_right_eq_some.mp hstep
  obtain rfl := Option.some.inj hy
  rw [stepAccept_cons hf]
  refine ⟨?_, ?_, fun v hv => Function.update_of_ne hv .., goto_worker .., rfl⟩
  · rw [State.goto, Server.sessions_set, if_pos rfl]
  · intro r hr
    rw [State.goto, Server.sessions_set, if_neg hr]

theorem free_of_work (hstep : stepWork x w = some y) {r : ℕ} (hr : r ∈ y.server.free) :
    r ∈ x.server.free ∨ x.worker w = .release r := by
  unfold stepWork at hstep
  cases hw : x.worker w with
  | idle =>
    rw [hw] at hstep
    contradiction
  | release s =>
    rw [hw] at hstep
    obtain rfl := Option.some.inj hstep
    rcases List.mem_cons.mp hr with rfl | hr
    · exact .inr rfl
    · exact .inl hr
  | _ =>
    rw [hw] at hstep
    obtain rfl := Option.some.inj hstep
    exact .inl hr

/-- Who is in the middle of `CloseSession` has been so before. -/
theorem closing_work (hstep : stepWork x w = some y) (hc : (y.worker w).closing = true)
    (hs : (y.worker w).session = some s) :
    (x.worker w).closing = true ∧ (x.worker w).session = some s ∧ x.worker w ≠ .release s := by
  unfold stepWork at hstep
  cases hw : x.worker w with
  | idle =>
    rw [hw] at hstep
    contradiction
  | _ =>
    rw [hw] at hstep
    obtain rfl := Option.some.inj hstep
    rw [goto_worker] at hc hs
    first | contradiction | exact ⟨rfl, hs, by simp⟩

end IocpChat.Workers

namespace IocpChat.Speakers

variable {n : ℕ} {x y : State n} {a : Act n}

def Act.receives : Act n → Bool
  | .complete .. | .post .. | .recv .. | .leave .. => true
  | _ => false

theorem receives_frame (ha : a.receives = true) (hstep : step x a = some y) :
    ∃ turn recvs, y = { x with turn, recvs } := by
  cases a with
  | complete w s =>
    obtain ⟨-, hy⟩ := Option.ite_none_right_eq_some.mp hstep
    exact ⟨_, _, (Option.some.inj hy).symm⟩
  | post w =>
    obtain ⟨-, hy⟩ := Option.ite_none_right_eq_some.mp hstep
    unfold stepPost at hy
    cases hturn : x.turn w with
    | none | posting s =>
      rw [hturn] at hy
      contradiction
    | accepting s | handling s =>
      rw [hturn] at hy
      exact ⟨_, x.recvs, (Option.some.inj hy).symm⟩
  | recv w ok =>
    obtain ⟨-, hy⟩ := Option.ite_none_right_eq_some.mp hstep
    unfold stepRecv at hy
    cases hturn : x.turn w with
    | none | accepting s | handling s =>
      rw [hturn] at hy
      contradiction
    | posting s =>
      rw [hturn] at hy
      exact ⟨_, _, (Option.some.inj hy).symm⟩
  | leave w =>
    obtain ⟨-, hy⟩ := Option.ite_none_right_eq_some.mp hstep
    unfold stepLeave at hy
    cases hturn : x.turn w with
    | none | accepting s | posting s =>
      rw [hturn] at hy
      contradiction
    | handling s =>
      rw [hturn] at hy
      exact ⟨_, x.recvs, (Option.some.inj hy).symm⟩
  | _ => contradiction

end IocpChat.Speakers

namespace IocpChat.Crowd

open Runs (Exec)
open SendPath (CleanAccept Strands Wakes)
open Speakers (numbers owes Pending)

variable {n cap s t k : ℕ} {x y : State n} {v w : Fin n} {f : Speakers.State n}
  {z : SendPath.State (Fin n) Speakers.Msg}

/-- The front and the sending sides are at the same place. -/
structure Linked (x : State n) : Prop where
  closing : ∀ s, (x.back s).closing = (x.front.base.server.sessions s).closing
  away : ∀ w s, x.inside w ≠ some s → (x.back s).pc w = .idle
  calling : ∀ w m s todo, x.front.call w = some ⟨m, s :: todo, true⟩ →
    (x.back s).pc w = .enqueuePush m
  closer : ∀ w s, (x.front.base.worker w).closing = true →
    (x.front.base.worker w).session = some s → ∃ b, (x.back s).pc w = .closeRest b
  pooled : ∀ s ∈ x.front.base.server.free, (x.back s).pooled = true

theorem linked_init (n cap : ℕ) : Linked (init n cap) where
  closing _ := rfl
  away _ _ _ := rfl
  calling _ _ _ _ h := by contradiction
  closer _ _ h := by contradiction
  pooled _ _ := rfl

theorem Linked.inside (h : Linked x) (hp : ((x.back s).pc w).isIdle = false) :
    x.inside w = some s := by
  by_contra hne
  rw [h.away w s hne] at hp
  contradiction

theorem Linked.idle (h : Linked x) (hin : x.inside w = none) (s : ℕ) : (x.back s).pc w = .idle := by
  refine h.away w s ?_
  rw [hin]
  exact (Option.some_ne_none s).symm

/-- Who is elsewhere in the sending side is not at a push. -/
theorem Linked.not_calling (h : Linked x) (hin : x.inside w = some s)
    (hpc : ∀ m, (x.back s).pc w ≠ .enqueuePush m) (m : Speakers.Msg) (r : ℕ) (todo : List ℕ) :
    x.front.call w ≠ some ⟨m, r :: todo, true⟩ := by
  intro hcall
  have hpcr := h.calling w m r todo hcall
  obtain rfl := Option.some.inj ((h.inside (w := w) (s := r) (by rw [hpcr]; rfl)).symm.trans hin)
  exact hpc m hpcr

theorem Linked.front (h : Linked x)
    (hclosing : ∀ r, (f.base.server.sessions r).closing = (x.front.base.server.sessions r).closing)
    (hcalls : ∀ v, v ≠ w → f.call v = x.front.call v)
    (hworkers : ∀ v, v ≠ w → f.base.worker v = x.front.base.worker v)
    (hcall : ∀ m r todo, f.call w = some ⟨m, r :: todo, true⟩ → (x.back r).pc w = .enqueuePush m)
    (hclose : ∀ r, (f.base.worker w).closing = true → (f.base.worker w).session = some r →
      ∃ b, (x.back r).pc w = .closeRest b)
    (hfree : ∀ r ∈ f.base.server.free, r ∈ x.front.base.server.free) :
    Linked { x with front := f } where
  closing r := (h.closing r).trans (hclosing r).symm
  away := h.away
  calling v m r todo hv := by
    by_cases hvw : v = w
    · rw [hvw] at hv ⊢
      exact hcall m r todo hv
    · exact h.calling v m r todo ((hcalls v hvw).symm.trans hv)
  closer v r hc hr := by
    by_cases hvw : v = w
    · rw [hvw] at hc hr ⊢
      exact hclose r hc hr
    · change (f.base.worker v).closing = true at hc
      change (f.base.worker v).session = some r at hr
      rw [hworkers v hvw] at hc hr
      exact h.closer v r hc hr
  pooled r hr := h.pooled r (hfree r hr)

/-- A worker takes steps in a sending side, and perhaps one in the front with them. -/
theorem Linked.back (h : Linked x) (hin : x.inside w = none ∨ x.inside w = some s)
    (hpc : ∀ v, v ≠ w → z.pc v = (x.back s).pc v)
    (hclosing : z.closing = (f.base.server.sessions s).closing)
    (hclosings : ∀ r, r ≠ s →
      (f.base.server.sessions r).closing = (x.front.base.server.sessions r).closing)
    (hcalls : ∀ v, v ≠ w → f.call v = x.front.call v)
    (hworkers : ∀ v, v ≠ w → f.base.worker v = x.front.base.worker v)
    (hcall : ∀ m r todo, f.call w = some ⟨m, r :: todo, true⟩ → r = s ∧ z.pc w = .enqueuePush m)
    (hclose : ∀ r, (f.base.worker w).closing = true → (f.base.worker w).session = some r →
      r = s ∧ ∃ b, z.pc w = .closeRest b)
    (hfree : ∀ r ∈ f.base.server.free, r ≠ s → r ∈ x.front.base.server.free)
    (hpooled : s ∈ f.base.server.free → z.pooled = true) :
    Linked ⟨f, Function.update x.back s z,
      Function.update x.inside w (if (z.pc w).isIdle then none else some s)⟩ := by
  have hpcs (v : Fin n) (r : ℕ) (hv : v ≠ w) :
      (Function.update x.back s z r).pc v = (x.back r).pc v := by
    by_cases hr : r = s
    · rw [hr, Function.update_self]
      exact hpc v hv
    · rw [Function.update_of_ne hr]
  refine ⟨?_, ?_, ?_, ?_, ?_⟩
  · intro r
    change (Function.update x.back s z r).closing = _
    by_cases hr : r = s
    · rw [hr, Function.update_self]
      exact hclosing
    · rw [Function.update_of_ne hr]
      exact (h.closing r).trans (hclosings r hr).symm
  · intro v r hv
    change Function.update x.inside w _ v ≠ some r at hv
    change (Function.update x.back s z r).pc v = .idle
    by_cases hvw : v = w
    · subst hvw
      rw [Function.update_self] at hv
      by_cases hr : r = s
      · rw [hr, Function.update_self]
        by_contra hidle
        refine hv ?_
        rw [if_neg fun hz => hidle (SendPath.Pc.eq_idle hz), hr]
      · rw [Function.update_of_ne hr]
        rcases hin with hin | hin
        · exact h.idle hin r
        · refine h.away v r fun hvr => hr ?_
          exact Option.some.inj (hvr.symm.trans hin)
    · rw [Function.update_of_ne hvw] at hv
      rw [hpcs v r hvw]
      exact h.away v r hv
  · intro v m r todo hv
    change (Function.update x.back s z r).pc v = _
    by_cases hvw : v = w
    · rw [hvw] at hv ⊢
      obtain ⟨rfl, hz⟩ := hcall m r todo hv
      rw [Function.update_self]
      exact hz
    · rw [hpcs v r hvw]
      exact h.calling v m r todo ((hcalls v hvw).symm.trans hv)
  · intro v r hc hr
    change (f.base.worker v).closing = true at hc
    change (f.base.worker v).session = some r at hr
    change ∃ b, (Function.update x.back s z r).pc v = _
    by_cases hvw : v = w
    · rw [hvw] at hc hr ⊢
      obtain ⟨rfl, hz⟩ := hclose r hc hr
      rw [Function.update_self]
      exact hz
    · rw [hpcs v r hvw]
      rw [hworkers v hvw] at hc hr
      exact h.closer v r hc hr
  · intro r hr
    change (Function.update x.back s z r).pooled = true
    by_cases hrs : r = s
    · rw [hrs, Function.update_self]
      exact hpooled (hrs ▸ hr)
    · rw [Function.update_of_ne hrs]
      exact h.pooled r (hfree r hr hrs)

/-- What was pushed is what the Session was told, and it was all broadcast since its entry into the
table. -/
structure Matched (x : State n) : Prop where
  accepting : ∀ v s, (x.front.base.worker v).accepting = some s →
    (x.back s).pushed = [] ∧ ∀ w c, x.front.call w = some c → s ∉ c.todo
  told : ∀ t, x.front.base.At t (.inl .open) → (x.back t).pushed = x.front.told t
  listed : ∀ t w k i todo loaded, x.front.base.At t (.inl .open) →
    x.front.call w = some ⟨.said k i, todo, loaded⟩ → t ∈ todo → x.front.since t k ≤ i
  heard : ∀ t k, x.front.base.At t (.inl .open) →
    x.front.since t k ≤ x.front.said k ∧ ∀ i ∈ numbers k (x.front.told t), x.front.since t k ≤ i

theorem matched_init (n cap : ℕ) : Matched (init n cap) where
  accepting _ _ h := by contradiction
  told _ _ := rfl
  listed _ _ _ _ _ _ _ h := by contradiction
  heard _ _ _ := ⟨le_rfl, by simp [init, Speakers.init, numbers]⟩

/-- Who is in the table has been told the same as before, who comes in nothing. -/
theorem Matched.base (h : Matched x) {place : ℕ → Workers.Place n}
    (hinv : Workers.Inv cap place x.front.base) {a : Workers.Act n} {b : Workers.State n}
    (hstep : Workers.step x.front.base a = some b) {turn : Fin n → Speakers.Turn}
    {told : ℕ → List Speakers.Msg} {since : ℕ → ℕ → ℕ}
    {back : ℕ → SendPath.State (Fin n) Speakers.Msg} {inside : Fin n → Option ℕ}
    (haccepting : ∀ v s, (b.worker v).accepting = some s →
      (back s).pushed = [] ∧ ∀ w c, x.front.call w = some c → s ∉ c.todo)
    (hold : ∀ t, x.front.base.At t (.inl .open) →
      (∀ w, a = .work w → x.front.base.worker w ≠ .insert t) →
        (back t).pushed = (x.back t).pushed ∧ told t = x.front.told t ∧ since t = x.front.since t)
    (hnew : ∀ t w, a = .work w → x.front.base.worker w = .insert t →
      (back t).pushed = (x.back t).pushed ∧ told t = [] ∧ since t = x.front.said) :
    Matched ⟨{ x.front with base := b, turn, told, since }, back, inside⟩ := by
  have hentered (t : ℕ) (ho : b.At t (.inl .open)) :
      (∃ w, a = .work w ∧ x.front.base.worker w = .insert t) ∨ (x.front.base.At t (.inl .open) ∧
        (back t).pushed = (x.back t).pushed ∧ told t = x.front.told t ∧
          since t = x.front.since t) := by
    by_cases hw : ∃ w, a = .work w ∧ x.front.base.worker w = .insert t
    · exact .inl hw
    · have hopen := (hinv.opens hstep ho).2.resolve_right hw
      exact .inr ⟨hopen, hold t hopen fun w ha hins => hw ⟨w, ha, hins⟩⟩
  refine ⟨haccepting, ?_, ?_, ?_⟩
  · intro t ho
    change (back t).pushed = told t
    rcases hentered t ho with ⟨w, ha, hw⟩ | ⟨hopen, hpushed, htold, -⟩
    · obtain ⟨hpushed, htold, -⟩ := hnew t w ha hw
      rw [hpushed, htold, (h.accepting w t (by rw [hw]; rfl)).1]
    · rw [hpushed, htold, h.told t hopen]
  · intro t v k i todo loaded ho hv hmem
    change since t k ≤ i
    rcases hentered t ho with ⟨w, ha, hw⟩ | ⟨hopen, -, -, hsince⟩
    · exact absurd hmem ((h.accepting w t (by rw [hw]; rfl)).2 v _ hv)
    · rw [hsince]
      exact h.listed t v k i todo loaded hopen hv hmem
  · intro t k ho
    change since t k ≤ x.front.said k ∧ ∀ i ∈ numbers k (told t), since t k ≤ i
    rcases hentered t ho with ⟨w, ha, hw⟩ | ⟨hopen, -, htold, hsince⟩
    · obtain ⟨-, htold, hsince⟩ := hnew t w ha hw
      rw [htold, hsince]
      exact ⟨le_rfl, nofun⟩
    · rw [htold, hsince]
      exact h.heard t k hopen

theorem Matched.call (h : Matched x) {c : Option Speakers.Call} {said : ℕ → ℕ}
    {back : ℕ → SendPath.State (Fin n) Speakers.Msg} {inside : Fin n → Option ℕ}
    (hlist : ∀ c', c = some c' → ∀ s ∈ c'.todo, ∀ v, (x.front.base.worker v).accepting ≠ some s)
    (hlisted : ∀ k i todo loaded, c = some ⟨.said k i, todo, loaded⟩ → ∀ t ∈ todo,
      x.front.base.At t (.inl .open) → x.front.since t k ≤ i)
    (hsaid : ∀ k, x.front.said k ≤ said k)
    (hpushed : ∀ s, (back s).pushed = (x.back s).pushed) :
    Matched ⟨{ x.front.setCall w c with said }, back, inside⟩ where
  accepting v s hs := by
    obtain ⟨hnil, hcalls⟩ := h.accepting v s hs
    refine ⟨(hpushed s).trans hnil, ?_⟩
    intro u c' hu
    change Function.update x.front.call w c u = some c' at hu
    by_cases huw : u = w
    · rw [huw, Function.update_self] at hu
      exact fun hmem => hlist c' hu s hmem v hs
    · rw [Function.update_of_ne huw] at hu
      exact hcalls u c' hu
  told t ho := (hpushed t).trans (h.told t ho)
  listed t u k i todo loaded ho hu hmem := by
    change Function.update x.front.call w c u = _ at hu
    by_cases huw : u = w
    · rw [huw, Function.update_self] at hu
      exact hlisted k i todo loaded hu t hmem ho
    · rw [Function.update_of_ne huw] at hu
      exact h.listed t u k i todo loaded ho hu hmem
  heard t k ho := ⟨(h.heard t k ho).1.trans (hsaid k), (h.heard t k ho).2⟩

theorem Matched.push (h : Matched x) {m : Speakers.Msg} {todo : List ℕ} {loaded : Bool}
    (hcall : x.front.call w = some ⟨m, s :: todo, loaded⟩)
    (hz : z.pushed = (x.back s).pushed ++ [m]) (inside : Fin n → Option ℕ) :
    Matched ⟨{ x.front.setCall w (some ⟨m, todo, false⟩) with
      told := Function.update x.front.told s (x.front.told s ++ [m]) },
        Function.update x.back s z, inside⟩ := by
  refine ⟨?_, ?_, ?_, ?_⟩
  · intro v r hr
    obtain ⟨hnil, hcalls⟩ := h.accepting v r hr
    have hlisted := hcalls w _ hcall
    have hrs : r ≠ s := by
      rintro rfl
      exact hlisted (List.mem_cons_self ..)
    constructor
    · change (Function.update x.back s z r).pushed = []
      rw [Function.update_of_ne hrs]
      exact hnil
    · intro u c' hu
      change Function.update x.front.call w _ u = some c' at hu
      by_cases huw : u = w
      · rw [huw, Function.update_self] at hu
        obtain rfl := Option.some.inj hu
        exact List.not_mem_of_not_mem_cons hlisted
      · rw [Function.update_of_ne huw] at hu
        exact hcalls u c' hu
  · intro t ho
    change (Function.update x.back s z t).pushed =
      Function.update x.front.told s (x.front.told s ++ [m]) t
    by_cases hts : t = s
    · subst hts
      rw [Function.update_self, Function.update_self, hz, h.told t ho]
    · rw [Function.update_of_ne hts, Function.update_of_ne hts]
      exact h.told t ho
  · intro t u k i todo' loaded' ho hu hmem
    change Function.update x.front.call w _ u = _ at hu
    by_cases huw : u = w
    · rw [huw, Function.update_self, Option.some.injEq, Speakers.Call.mk.injEq] at hu
      obtain ⟨rfl, rfl, -⟩ := hu
      exact h.listed t w k i _ loaded ho hcall (List.mem_cons_of_mem _ hmem)
    · rw [Function.update_of_ne huw] at hu
      exact h.listed t u k i todo' loaded' ho hu hmem
  · intro t k ho
    refine ⟨(h.heard t k ho).1, ?_⟩
    change ∀ i ∈ numbers k (Function.update x.front.told s (x.front.told s ++ [m]) t),
      x.front.since t k ≤ i
    by_cases hts : t = s
    · subst hts
      intro i hi
      rw [Function.update_self, Speakers.numbers_append, List.mem_append] at hi
      rcases hi with hi | hi
      · exact (h.heard t k ho).2 i hi
      · cases m with
        | answer => exact absurd hi List.not_mem_nil
        | said conn number =>
          by_cases hconn : conn = k
          · subst hconn
            obtain rfl : i = number := by simpa [Speakers.Msg.number] using hi
            exact h.listed t w conn i _ loaded ho hcall (List.mem_cons_self ..)
          · simp [Speakers.Msg.number, hconn] at hi
    · rw [Function.update_of_ne hts]
      exact (h.heard t k ho).2

theorem Matched.back (h : Matched x) {back : ℕ → SendPath.State (Fin n) Speakers.Msg}
    {inside : Fin n → Option ℕ} (hpushed : ∀ s, (back s).pushed = (x.back s).pushed) :
    Matched ⟨x.front, back, inside⟩ where
  accepting v s hs := ⟨(hpushed s).trans (h.accepting v s hs).1, (h.accepting v s hs).2⟩
  told t ho := (hpushed t).trans (h.told t ho)
  listed := h.listed
  heard := h.heard

theorem pushed_update {back : ℕ → SendPath.State (Fin n) Speakers.Msg}
    (hz : z.pushed = (back s).pushed) (r : ℕ) :
    (Function.update back s z r).pushed = (back r).pushed := by
  by_cases hr : r = s
  · rw [hr, Function.update_self, hz]
  · rw [Function.update_of_ne hr]

/-- A call that has just begun, or gone on to the next Session, has not tested `closing` yet. -/
theorem not_loaded (calls : Fin n → Option Speakers.Call) (w : Fin n) (m m' : Speakers.Msg)
    (list todo : List ℕ) : Function.update calls w (some ⟨m, list, false⟩) w ≠ some ⟨m', todo, true⟩ := by
  rw [Function.update_self]
  intro heq
  exact absurd (Speakers.Call.mk.inj (Option.some.inj heq)).2.2 Bool.false_ne_true

structure Inv (cap : ℕ) (x : State n) : Prop where
  front : Speakers.Inv cap x.front
  linked : Linked x
  matched : Matched x

theorem inv_init (n cap : ℕ) : Inv cap (init n cap) :=
  ⟨Speakers.inv_init n cap, linked_init n cap, matched_init n cap⟩

theorem Inv.next (h : Inv cap x) {sendOk : Bool} (hstep : stepNext x w sendOk = some y) :
    Inv cap y := by
  unfold stepNext at hstep
  cases hin : x.inside w with
  | none =>
    rw [hin] at hstep
    contradiction
  | some s =>
    rw [hin] at hstep
    have hguard : (∀ m, (x.back s).pc w ≠ .enqueuePush m) ∧
        (∀ b, (x.back s).pc w ≠ .closeExchange b) ∧ (∀ b, (x.back s).pc w ≠ .closeRest b) ∧
          x.stepBack w s [.next w sendOk] = some y := by
      cases hpc : (x.back s).pc w <;> simp_all
    obtain ⟨hpush, hexchange, hrest, hback⟩ := hguard
    obtain ⟨z, hz, rfl⟩ := Option.map_eq_some_iff.mp hback
    rw [SendPath.runIf_one] at hz
    obtain ⟨hpcs, hpushed, hclosing, -, hpooled⟩ := SendPath.next_frame hz
    refine ⟨h.front, ?_, h.matched.back (pushed_update (hpushed hpush))⟩
    refine h.linked.back (.inr hin) hpcs ((hclosing hexchange).trans (h.linked.closing s))
      (fun _ _ => rfl) (fun _ _ => rfl) (fun _ _ => rfl) ?_ ?_ (fun _ hr _ => hr)
      fun hs => hpooled (h.linked.pooled s hs)
    · intro m r todo hcall
      exact absurd hcall (h.linked.not_calling hin hpush m r todo)
    · intro r hc hr
      obtain ⟨b, hpc⟩ := h.linked.closer w r hc hr
      obtain rfl := Option.some.inj
        (hin.symm.trans (h.linked.inside (w := w) (s := r) (by rw [hpc]; rfl)))
      exact absurd hpc (hrest b)

theorem Inv.complete (h : Inv cap x) {i : ℕ} (hstep : step x (.complete w s i) = some y) :
    Inv cap y := by
  obtain ⟨⟨hin, hfree, -⟩, hback⟩ := Option.ite_none_right_eq_some.mp hstep
  obtain ⟨z, hz, rfl⟩ := Option.map_eq_some_iff.mp hback
  rw [SendPath.runIf_one] at hz
  obtain ⟨-, hz⟩ := Option.ite_none_right_eq_some.mp hz
  obtain rfl := Option.some.inj hz
  refine ⟨h.front, ?_, h.matched.back (pushed_update rfl)⟩
  refine h.linked.back (.inl hin) (fun v hv => Function.update_of_ne hv ..) (h.linked.closing s)
    (fun _ _ => rfl) (fun _ _ => rfl) (fun _ _ => rfl) ?_ ?_ (fun _ hr _ => hr) (h.linked.pooled s)
  · intro m r todo hcall
    rw [hfree.2] at hcall
    contradiction
  · intro r hc
    rw [hfree.1] at hc
    contradiction

theorem Linked.close (h : Linked x) (hready : x.Ready (.close w s)) :
    ∃ byPostSend, Runs.runIf SendPath.step (fun _ _ => True) (x.back s)
        (if x.inside w = none then [.close w, .next w true] else [.next w true]) =
          some { (x.back s).goto w (if (x.back s).closing then .idle else .closeRest byPostSend) with
            closing := true } ∧ (x.inside w = none ∨ x.inside w = some s) ∧
        ∀ m r todo, x.front.call w ≠ some ⟨m, r :: todo, true⟩ := by
  by_cases hin : x.inside w = none
  · refine ⟨false, ?_, .inl hin, ?_⟩
    · rw [if_pos hin]
      exact SendPath.runIf_close (h.idle hin s)
    · intro m r todo hcall
      have hpc := h.calling w m r todo hcall
      rw [h.idle hin r] at hpc
      contradiction
  · obtain ⟨hs, hpc⟩ := hready.resolve_left hin
    refine ⟨true, ?_, .inr hs, h.not_calling hs ?_⟩
    · rw [if_neg hin, SendPath.runIf_one, SendPath.step, SendPath.next, hpc]
    · intro m hm
      rw [hpc] at hm
      contradiction

theorem Inv.close (h : Inv cap x) (hok : x.front.Timely (.close w s)) (hready : x.Ready (.close w s))
    (hstep : stepFront x (.close w s) = some y) : Inv cap y := by
  obtain ⟨f, hf, hy⟩ := Option.bind_eq_some_iff.mp hstep
  have hfront := h.front.step hok hf
  obtain ⟨b, hbase, rfl⟩ := Option.map_eq_some_iff.mp hf
  obtain ⟨z, hz, rfl⟩ := Option.map_eq_some_iff.mp hy
  obtain ⟨byPostSend, hrun, hin, hcall⟩ := h.linked.close hready
  obtain rfl := Option.some.inj (hrun.symm.trans hz)
  obtain ⟨hclosing, hclosings, hworkers, hworker, hfree⟩ := Workers.close_frame hbase
  obtain ⟨place, hinv⟩ := h.front.books
  refine ⟨hfront, ?_, ?_⟩
  · refine h.linked.back hin (fun v hv => Function.update_of_ne hv ..) hclosing.symm hclosings
      (fun _ _ => rfl) hworkers (fun m r todo heq => absurd heq (hcall m r todo)) ?_
      (fun r hr _ => hfree ▸ hr) fun hs => h.linked.pooled s (hfree ▸ hs)
    intro r hc hr
    change (b.worker w).closing = true at hc
    change (b.worker w).session = some r at hr
    rw [hworker] at hc hr
    split_ifs at hc hr with hclosed
    · contradiction
    · refine ⟨(Option.some.inj hr).symm, byPostSend, ?_⟩
      rw [h.linked.closing s, if_neg hclosed]
      exact Function.update_self ..
  · refine h.matched.base hinv hbase ?_ (fun t _ _ => ⟨pushed_update (by rfl) t, rfl, rfl⟩) nofun
    intro v r hr
    have hvw : v ≠ w := by
      rintro rfl
      rw [hworker] at hr
      split_ifs at hr <;> contradiction
    rw [hworkers v hvw] at hr
    obtain ⟨hnil, hcalls⟩ := h.matched.accepting v r hr
    exact ⟨(pushed_update (by rfl) r).trans hnil, hcalls⟩

theorem Inv.accept (h : Inv cap x) {acceptSock : Option ℕ}
    (hok : x.Prompt (.front (.accept w acceptSock))) (hready : x.Ready (.accept w acceptSock))
    (hstep : stepFront x (.accept w acceptSock) = some y) : Inv cap y := by
  obtain ⟨f, hf, hy⟩ := Option.bind_eq_some_iff.mp hstep
  have hfront := h.front.step hok.1 hf
  obtain ⟨⟨hcall, -⟩, hb⟩ := Option.ite_none_right_eq_some.mp hf
  obtain ⟨b, hbase, rfl⟩ := Option.map_eq_some_iff.mp hb
  obtain ⟨place, hinv⟩ := h.front.books
  cases hfree : x.front.base.server.free with
  | nil =>
    have hecho : x.echo (.accept w acceptSock) = none := by rw [State.echo, hfree]; rfl
    rw [hecho] at hy
    obtain rfl := Option.some.inj hy
    obtain ⟨-, hb⟩ := Option.ite_none_right_eq_some.mp hbase
    rw [Workers.stepAccept_nil hfree] at hb
    obtain rfl := Option.some.inj hb
    refine ⟨hfront, ?_, ?_⟩
    · exact ⟨h.linked.closing, h.linked.away, h.linked.calling, h.linked.closer, h.linked.pooled⟩
    · exact h.matched.base hinv hbase h.matched.accepting (fun t _ _ => ⟨rfl, rfl, rfl⟩) nofun
  | cons s free =>
    have hecho : x.echo (.accept w acceptSock) = some (s, [.accept]) := by
      rw [State.echo, hfree]; rfl
    rw [hecho] at hy
    obtain ⟨z, hz, rfl⟩ := Option.map_eq_some_iff.mp hy
    rw [SendPath.runIf_one] at hz
    obtain ⟨-, hz⟩ := Option.ite_none_right_eq_some.mp hz
    obtain rfl := Option.some.inj hz
    obtain ⟨hclosing, hclosings, hworkers, hworker, hrest⟩ := Workers.accept_frame hfree hbase
    refine ⟨hfront, ?_, ?_⟩
    · refine h.linked.back (.inl hready) (fun _ _ => rfl) hclosing.symm hclosings (fun _ _ => rfl)
        hworkers ?_ ?_ ?_ ?_
      · intro m r todo heq
        change x.front.call w = _ at heq
        rw [hcall] at heq
        contradiction
      · intro r hc
        change (b.worker w).closing = true at hc
        rw [hworker] at hc
        contradiction
      · intro r hr _
        change r ∈ b.server.free at hr
        rw [hrest] at hr
        rw [hfree]
        exact List.mem_cons_of_mem s hr
      · intro hs
        change s ∈ b.server.free at hs
        rw [hrest] at hs
        have hnodup := hinv.kept.free_nodup
        rw [hfree] at hnodup
        exact absurd hs (List.nodup_cons.mp hnodup).1
    · refine h.matched.base hinv hbase ?_ ?_ nofun
      · intro v r hr
        change (Function.update x.back s _ r).pushed = [] ∧ _
        by_cases hrs : r = s
        · subst hrs
          rw [Function.update_self]
          exact ⟨rfl, fun u c hu => (hok.2 r (by rw [hfree]; rfl)).2 u c hu⟩
        · have hvw : v ≠ w := by
            rintro rfl
            rw [hworker] at hr
            exact hrs (Option.some.inj hr).symm
          rw [Function.update_of_ne hrs]
          rw [hworkers v hvw] at hr
          exact h.matched.accepting v r hr
      · intro t ho _
        have hts : t ≠ s := by
          rintro rfl
          have hpool := ((hinv.kept.free t).mp (by rw [hfree]; exact List.mem_cons_self ..)).2
          rw [hinv.open_iff.mp ho] at hpool
          contradiction
        exact ⟨congrArg SendPath.State.pushed (Function.update_of_ne hts ..), rfl, rfl⟩

theorem Matched.work (h : Matched x) {place : ℕ → Workers.Place n}
    (hinv : Workers.Inv cap place x.front.base) {b : Workers.State n}
    (hstep : Workers.stepWork x.front.base w = some b)
    {back : ℕ → SendPath.State (Fin n) Speakers.Msg} {inside : Fin n → Option ℕ}
    (hpushed : ∀ s, (back s).pushed = (x.back s).pushed) :
    Matched ⟨x.front.work w b, back, inside⟩ := by
  refine h.base hinv (a := .work w) hstep ?_ ?_ ?_
  · intro v r hr
    have hold : (x.front.base.worker v).accepting = some r := by
      by_cases hvw : v = w
      · rw [hvw] at hr ⊢
        exact Workers.accepting_of_work hstep hr
      · rwa [Workers.stepWork_others hstep hvw] at hr
    obtain ⟨hnil, hcalls⟩ := h.accepting v r hold
    exact ⟨(hpushed r).trans hnil, hcalls⟩
  · intro t _ hw
    exact ⟨hpushed t, if_neg (hw w rfl), if_neg (hw w rfl)⟩
  · intro t v hv hw
    obtain rfl := Workers.Act.work.inj hv
    exact ⟨hpushed t, if_pos hw, if_pos hw⟩

theorem Inv.work (h : Inv cap x) (hstep : stepFront x (.work w) = some y) : Inv cap y := by
  obtain ⟨f, hf, hy⟩ := Option.bind_eq_some_iff.mp hstep
  have hfront := h.front.step (a := .work w) trivial hf
  obtain ⟨b, hbase, rfl⟩ := Option.map_eq_some_iff.mp hf
  change Workers.stepWork x.front.base w = some b at hbase
  obtain ⟨place, hinv⟩ := h.front.books
  have hclosing := hinv.closing_of_work hbase
  have hworkers (v : Fin n) (hv : v ≠ w) := Workers.stepWork_others hbase hv
  by_cases hrelease : ∃ s, x.front.base.worker w = .release s
  · obtain ⟨s, hw⟩ := hrelease
    have hecho : x.echo (.work w) = some (s, [.next w true]) := by rw [State.echo, hw]
    rw [hecho] at hy
    obtain ⟨z, hz, rfl⟩ := Option.map_eq_some_iff.mp hy
    obtain ⟨byPostSend, hpc⟩ := h.linked.closer w s (by rw [hw]; rfl) (by rw [hw]; rfl)
    have hin := h.linked.inside (w := w) (s := s) (by rw [hpc]; rfl)
    have hnext : SendPath.next (x.back s) w true =
        some { (x.back s).goto w .idle with pooled := true } := by rw [SendPath.next, hpc]
    rw [SendPath.runIf_one] at hz
    obtain rfl := Option.some.inj (hnext.symm.trans hz)
    refine ⟨hfront, ?_, h.matched.work hinv hbase (pushed_update rfl)⟩
    refine h.linked.back (.inr hin) (fun v hv => Function.update_of_ne hv ..)
      ((h.linked.closing s).trans (hclosing s).symm) (fun r _ => hclosing r) (fun _ _ => rfl) hworkers
      ?_ ?_ ?_ fun _ => rfl
    · intro m r todo hcall
      refine absurd hcall (h.linked.not_calling hin ?_ m r todo)
      intro m' hm
      rw [hpc] at hm
      contradiction
    · intro r hc hr
      obtain ⟨-, hr', hnot⟩ := Workers.closing_work hbase hc hr
      rw [hw] at hr' hnot
      obtain rfl := Option.some.inj hr'
      exact absurd rfl hnot
    · intro r hr hrs
      refine (Workers.free_of_work hbase hr).resolve_right fun hwr => hrs ?_
      exact (Workers.Worker.release.inj (hw.symm.trans hwr)).symm
  · have hecho : x.echo (.work w) = none := by
      rw [State.echo]
      cases hw : x.front.base.worker w <;> simp_all
    rw [hecho] at hy
    obtain rfl := Option.some.inj hy
    refine ⟨hfront, ?_, h.matched.work hinv hbase fun _ => rfl⟩
    refine h.linked.front hclosing (fun _ _ => rfl) hworkers (h.linked.calling w) ?_ ?_
    · intro r hc hr
      obtain ⟨hc', hr', -⟩ := Workers.closing_work hbase hc hr
      exact h.linked.closer w r hc' hr'
    · intro r hr
      exact (Workers.free_of_work hbase hr).resolve_right fun hwr => hrelease ⟨r, hwr⟩

theorem Inv.call (h : Inv cap x) (hready : x.Ready (.call w))
    (hstep : stepFront x (.call w) = some y) : Inv cap y := by
  obtain ⟨f, hf, hy⟩ := Option.bind_eq_some_iff.mp hstep
  have hfront := h.front.step (a := .call w) trivial hf
  obtain ⟨hidle, hcallstep⟩ := Option.ite_none_right_eq_some.mp hf
  have hnone (r : ℕ) : ¬ ((x.front.base.worker w).closing = true ∧
      (x.front.base.worker w).session = some r) := by
    rw [hidle]
    exact fun hc => nomatch hc.1
  unfold Speakers.stepCall at hcallstep
  cases hcall : x.front.call w with
  | none =>
    rw [hcall] at hcallstep
    contradiction
  | some c =>
    obtain ⟨m, todo, loaded⟩ := c
    rw [hcall] at hcallstep
    cases todo with
    | nil =>
      have hecho : x.echo (.call w) = none := by rw [State.echo, hcall]
      rw [hecho] at hy
      obtain rfl := Option.some.inj hy
      obtain rfl := Option.some.inj hcallstep
      refine ⟨hfront, ?_, h.matched.call nofun nofun (fun _ => le_rfl) fun _ => rfl⟩
      refine h.linked.front (w := w) (fun _ => rfl) (fun v hv => Function.update_of_ne hv ..)
        (fun _ _ => rfl) ?_ (fun r hc hr => absurd ⟨hc, hr⟩ (hnone r)) fun _ hr => hr
      intro m' r todo' heq
      change Function.update x.front.call w none w = _ at heq
      rw [Function.update_self] at heq
      contradiction
    | cons s todo =>
      have hsub (c' : List ℕ) (hc : c' ⊆ s :: todo) : (∀ r ∈ c', ∀ v,
          (x.front.base.worker v).accepting ≠ some r) ∧ ∀ k i, m = .said k i → ∀ t ∈ c',
            x.front.base.At t (.inl .open) → x.front.since t k ≤ i := by
        constructor
        · intro r hr v hv
          exact (h.matched.accepting v r hv).2 w _ hcall (hc hr)
        · rintro k i rfl t ht ho
          exact h.matched.listed t w k i _ loaded ho hcall (hc ht)
      cases loaded with
      | false =>
        have hin : x.inside w = none := hready.resolve_right (by rw [hcall]; exact Bool.false_ne_true)
        have hecho : x.echo (.call w) = some (s, [.enqueue w m, .next w true]) := by
          rw [State.echo, hcall]
        rw [hecho] at hy
        obtain ⟨z, hz, rfl⟩ := Option.map_eq_some_iff.mp hy
        have hload := SendPath.runIf_load (h.linked.idle hin s) m
        obtain rfl := Option.some.inj (hload.symm.trans hz)
        obtain rfl := Option.some.inj hcallstep
        refine ⟨hfront, ?_, ?_⟩
        · refine h.linked.back (.inl hin) (fun v hv => Function.update_of_ne hv ..)
            (h.linked.closing s) (fun _ _ => rfl) (fun v hv => Function.update_of_ne hv ..)
            (fun _ _ => rfl) ?_ (fun r hc hr => absurd ⟨hc, hr⟩ (hnone r)) (fun _ hr _ => hr)
            (h.linked.pooled s)
          intro m' r todo' heq
          change Function.update x.front.call w _ w = _ at heq
          rw [Function.update_self, Option.some.injEq] at heq
          change r = s ∧ ((x.back s).goto w _).pc w = .enqueuePush m'
          rw [SendPath.State.pc_goto_self, h.linked.closing s]
          split_ifs at heq ⊢ with hc
          · exact absurd (Speakers.Call.mk.inj heq).2.2 Bool.false_ne_true
          · obtain ⟨rfl, hrs, -⟩ := Speakers.Call.mk.inj heq
            exact ⟨(List.cons.inj hrs).1.symm, rfl⟩
        · refine h.matched.call ?_ ?_ (fun _ => le_rfl) (pushed_update rfl)
          · intro c' hc'
            obtain rfl := Option.some.inj hc'
            split_ifs
            · exact (hsub todo (List.subset_cons_self ..)).1
            · exact (hsub _ (List.Subset.refl _)).1
          · intro k i todo' loaded' hc'
            obtain hc' := Option.some.inj hc'
            split_ifs at hc'
            · obtain ⟨hm, rfl, -⟩ := Speakers.Call.mk.inj hc'
              exact (hsub todo (List.subset_cons_self ..)).2 k i hm
            · obtain ⟨hm, rfl, -⟩ := Speakers.Call.mk.inj hc'
              exact (hsub _ (List.Subset.refl _)).2 k i hm
      | true =>
        have hecho : x.echo (.call w) = some (s, [.next w true]) := by rw [State.echo, hcall]
        rw [hecho] at hy
        obtain ⟨z, hz, rfl⟩ := Option.map_eq_some_iff.mp hy
        have hpc := h.linked.calling w m s todo hcall
        have hin := h.linked.inside (w := w) (s := s) (by rw [hpc]; rfl)
        have hnext : SendPath.next (x.back s) w true = some { (x.back s).goto w .enqueueExchange with
            sendQueue := (x.back s).sendQueue ++ [m], pushed := (x.back s).pushed ++ [m] } := by
          rw [SendPath.next, hpc]
        rw [SendPath.runIf_one] at hz
        obtain rfl := Option.some.inj (hnext.symm.trans hz)
        obtain rfl := Option.some.inj hcallstep
        refine ⟨hfront, ?_, h.matched.push hcall rfl _⟩
        refine h.linked.back (.inr hin) (fun v hv => Function.update_of_ne hv ..)
          (h.linked.closing s) (fun _ _ => rfl) (fun v hv => Function.update_of_ne hv ..)
          (fun _ _ => rfl) ?_ (fun r hc hr => absurd ⟨hc, hr⟩ (hnone r)) (fun _ hr _ => hr)
          (h.linked.pooled s)
        intro m' r todo' heq
        exact absurd heq (not_loaded x.front.call w _ _ _ _)

theorem Inv.announce (h : Inv cap x) {snapshot : List ℕ}
    (hstep : stepFront x (.announce w snapshot) = some y) : Inv cap y := by
  obtain ⟨f, hf, hy⟩ := Option.bind_eq_some_iff.mp hstep
  obtain rfl := Option.some.inj hy
  have hfront := h.front.step (a := .announce w snapshot) trivial hf
  obtain ⟨hfree, hannounce⟩ := Option.ite_none_right_eq_some.mp hf
  obtain ⟨place, hinv⟩ := h.front.books
  unfold Speakers.stepAnnounce at hannounce
  cases hturn : x.front.turn w with
  | none | accepting s | posting s =>
    rw [hturn] at hannounce
    contradiction
  | handling s =>
    rw [hturn] at hannounce
    obtain ⟨hperm, hf⟩ := Option.ite_none_right_eq_some.mp hannounce
    obtain rfl := Option.some.inj hf
    refine ⟨hfront, ?_, h.matched.call ?_ ?_ ?_ fun _ => rfl⟩
    · refine h.linked.front (w := w) (fun _ => rfl) (fun v hv => Function.update_of_ne hv ..)
        (fun _ _ => rfl) ?_ ?_ fun _ hr => hr
      · intro m r todo heq
        exact absurd heq (not_loaded x.front.call w _ _ _ _)
      · intro r hc
        change (x.front.base.worker w).closing = true at hc
        rw [hfree.1] at hc
        contradiction
    · intro c hc r hr v hv
      obtain rfl := Option.some.inj hc
      exact hinv.not_tabled hv (hperm.mem_iff.mp (List.mem_of_mem_filter hr))
    · intro k i todo loaded hc t _ ho
      obtain ⟨hm, -, -⟩ := Speakers.Call.mk.inj (Option.some.inj hc)
      obtain ⟨rfl, rfl⟩ := Speakers.Msg.said.inj hm
      exact (h.matched.heard t _ ho).1
    · intro k
      by_cases hk : k = (x.front.base.server.sessions s).id
      · rw [hk, Function.update_self]
        exact Nat.le_succ _
      · rw [Function.update_of_ne hk]

theorem Inv.answer (h : Inv cap x) (hok : x.Prompt (.front (.answer w s)))
    (hstep : stepFront x (.answer w s) = some y) : Inv cap y := by
  obtain ⟨f, hf, hy⟩ := Option.bind_eq_some_iff.mp hstep
  obtain rfl := Option.some.inj hy
  have hfront := h.front.step hok.1 hf
  obtain ⟨hfree, hf⟩ := Option.ite_none_right_eq_some.mp hf
  obtain rfl := Option.some.inj hf
  refine ⟨hfront, ?_, h.matched.call ?_ nofun (fun _ => le_rfl) fun _ => rfl⟩
  · refine h.linked.front (w := w) (fun _ => rfl) (fun v hv => Function.update_of_ne hv ..)
      (fun _ _ => rfl) ?_ ?_ fun _ hr => hr
    · intro m r todo heq
      exact absurd heq (not_loaded x.front.call w _ _ _ _)
    · intro r hc
      change (x.front.base.worker w).closing = true at hc
      rw [hfree.1] at hc
      contradiction
  · intro c hc r hr
    obtain rfl := Option.some.inj hc
    obtain rfl := List.mem_singleton.mp hr
    exact hok.2

theorem Inv.receive (h : Inv cap x) {a : Speakers.Act n} (ha : a.receives = true)
    (hok : x.front.Timely a) (hstep : stepFront x a = some y) : Inv cap y := by
  obtain ⟨f, hf, hy⟩ := Option.bind_eq_some_iff.mp hstep
  have hfront := h.front.step hok hf
  obtain ⟨turn, recvs, rfl⟩ := Speakers.receives_frame ha hf
  have hecho : x.echo a = none := by
    cases a <;> first | contradiction | rfl
  rw [hecho] at hy
  obtain rfl := Option.some.inj hy
  refine ⟨hfront, ?_, ?_⟩
  · exact ⟨h.linked.closing, h.linked.away, h.linked.calling, h.linked.closer, h.linked.pooled⟩
  · exact ⟨h.matched.accepting, h.matched.told, h.matched.listed, h.matched.heard⟩

theorem Inv.step (h : Inv cap x) {a : Act n} (hok : x.Prompt a) (hstep : Crowd.step x a = some y) :
    Inv cap y := by
  cases a with
  | front a =>
    obtain ⟨hready, hstep⟩ := Option.ite_none_right_eq_some.mp hstep
    cases a with
    | accept w acceptSock => exact h.accept hok hready hstep
    | close w s => exact h.close hok.1 hready hstep
    | work w => exact h.work hstep
    | complete w s | post w | recv w ok | leave w => exact h.receive rfl hok.1 hstep
    | announce w snapshot => exact h.announce hstep
    | answer w s => exact h.answer hok hstep
    | call w => exact h.call hready hstep
  | next w sendOk => exact h.next hstep
  | complete w s i => exact h.complete hstep

theorem inv_run {acts : List (Act n)} (h : Exec step State.Prompt (init n cap) acts x) :
    Inv cap x :=
  h.invariant (fun _ _ _ hs hok hstep => hs.step hok hstep) (inv_init n cap)

theorem Inv.echo_open (h : Inv cap x) {a : Speakers.Act n} (hready : x.Ready a)
    {steps : List (SendPath.Act (Fin n) Speakers.Msg)} (hecho : x.echo a = some (s, steps)) :
    ∃ z, Runs.runIf SendPath.step (fun _ _ => True) (x.back s) steps = some z := by
  cases a with
  | accept w acceptSock =>
    obtain ⟨r, hr, heq⟩ := Option.map_eq_some_iff.mp hecho
    obtain ⟨rfl, rfl⟩ := Prod.mk.inj heq
    rw [SendPath.runIf_one]
    exact ⟨_, if_pos (h.linked.pooled r (List.mem_of_mem_head? hr))⟩
  | close w r =>
    obtain ⟨rfl, rfl⟩ := Prod.mk.inj (Option.some.inj hecho)
    obtain ⟨byPostSend, hrun, -⟩ := h.linked.close hready
    exact ⟨_, hrun⟩
  | work w =>
    rw [State.echo] at hecho
    cases hw : x.front.base.worker w <;> rw [hw] at hecho <;> try contradiction
    obtain ⟨rfl, rfl⟩ := Prod.mk.inj (Option.some.inj hecho)
    obtain ⟨b, hpc⟩ := h.linked.closer w _ (by rw [hw]; rfl) (by rw [hw]; rfl)
    rw [SendPath.runIf_one, SendPath.step, SendPath.next, hpc]
    exact ⟨_, rfl⟩
  | call w =>
    rw [State.echo] at hecho
    cases hcall : x.front.call w with
    | none =>
      rw [hcall] at hecho
      contradiction
    | some c =>
      obtain ⟨m, todo, loaded⟩ := c
      rw [hcall] at hecho
      cases todo with
      | nil => contradiction
      | cons r todo =>
        cases loaded with
        | false =>
          obtain ⟨rfl, rfl⟩ := Prod.mk.inj (Option.some.inj hecho)
          have hin : x.inside w = none :=
            hready.resolve_right (by rw [hcall]; exact Bool.false_ne_true)
          exact ⟨_, SendPath.runIf_load (h.linked.idle hin r) m⟩
        | true =>
          obtain ⟨rfl, rfl⟩ := Prod.mk.inj (Option.some.inj hecho)
          rw [SendPath.runIf_one, SendPath.step, SendPath.next, h.linked.calling w m r todo hcall]
          exact ⟨_, rfl⟩
  | _ => contradiction

/-- The sending sides never hold the front up. -/
theorem never_held_up {acts : List (Act n)} (h : Exec step State.Prompt (init n cap) acts x)
    {a : Speakers.Act n} (hready : x.Ready a) (hf : Speakers.step x.front a = some f) :
    ∃ y, step x (.front a) = some y ∧ y.front = f := by
  have hstep : step x (.front a) = stepFront x a := if_pos hready
  rw [hstep, stepFront, hf, Option.bind_some]
  cases hecho : x.echo a with
  | none => exact ⟨{ x with front := f }, rfl, rfl⟩
  | some echo =>
    obtain ⟨s, steps⟩ := echo
    obtain ⟨z, hz⟩ := (inv_run h).echo_open hready hecho
    refine ⟨_, Option.map_eq_some_iff.mpr ⟨z, hz, rfl⟩, rfl⟩

/-! ### The parts of a run -/

theorem stepBack_front {steps : List (SendPath.Act (Fin n) Speakers.Msg)}
    (h : x.stepBack w s steps = some y) : y.front = x.front := by
  obtain ⟨z, -, rfl⟩ := Option.map_eq_some_iff.mp h
  rfl

/-- In the front, a step is a step of the front or none. -/
theorem front_step {a : Act n} (hok : x.Prompt a) (hstep : step x a = some y) :
    ∃ is, Exec Speakers.step Speakers.State.Timely x.front is y.front := by
  cases a with
  | front a =>
    obtain ⟨-, hstep⟩ := Option.ite_none_right_eq_some.mp hstep
    obtain ⟨f, hf, hy⟩ := Option.bind_eq_some_iff.mp hstep
    have hfront : y.front = f := by
      cases hecho : x.echo a with
      | none =>
        rw [hecho] at hy
        exact congrArg State.front (Option.some.inj hy).symm
      | some echo =>
        rw [hecho] at hy
        exact stepBack_front hy
    exact ⟨[a], .cons hok.1 (hf.trans (congrArg some hfront.symm)) (.nil _)⟩
  | next w sendOk =>
    have hfront : y.front = x.front := by
      obtain ⟨s, hback⟩ : ∃ s, x.stepBack w s [.next w sendOk] = some y := by
        rw [step, stepNext] at hstep
        cases hin : x.inside w with
        | none =>
          rw [hin] at hstep
          contradiction
        | some s =>
          rw [hin] at hstep
          refine ⟨s, ?_⟩
          cases hpc : (x.back s).pc w <;> simp_all
      exact stepBack_front hback
    exact ⟨[], hfront ▸ .nil _⟩
  | complete w s i =>
    obtain ⟨-, hback⟩ := Option.ite_none_right_eq_some.mp hstep
    exact ⟨[], stepBack_front hback ▸ .nil _⟩

theorem stepBack_back {steps : List (SendPath.Act (Fin n) Speakers.Msg)}
    (hrun : ∀ z, Runs.runIf SendPath.step (fun _ _ => True) (x.back s) steps = some z →
      Exec SendPath.step Wakes (x.back s) steps z)
    (h : x.stepBack w s steps = some y) (t : ℕ) :
    ∃ is, Exec SendPath.step Wakes (x.back t) is (y.back t) := by
  obtain ⟨z, hz, rfl⟩ := Option.map_eq_some_iff.mp h
  change ∃ is, Exec SendPath.step Wakes (x.back t) is (Function.update x.back s z t)
  by_cases hts : t = s
  · rw [hts, Function.update_self]
    exact ⟨steps, hrun z hz⟩
  · rw [Function.update_of_ne hts]
    exact ⟨[], .nil _⟩

/-- What a step of the front asks of a sending side is a run there. -/
theorem Inv.echo_run (h : Inv cap x) {a : Speakers.Act n} (hok : x.Prompt (.front a))
    (hready : x.Ready a) {steps : List (SendPath.Act (Fin n) Speakers.Msg)}
    (hecho : x.echo a = some (s, steps))
    (hz : Runs.runIf SendPath.step (fun _ _ => True) (x.back s) steps = some z) :
    Exec SendPath.step Wakes (x.back s) steps z := by
  cases a with
  | accept w acceptSock =>
    obtain ⟨r, hr, heq⟩ := Option.map_eq_some_iff.mp hecho
    obtain ⟨rfl, rfl⟩ := Prod.mk.inj heq
    rw [SendPath.runIf_one] at hz
    exact .cons ⟨(hok.2 r hr).1, nofun⟩ hz (.nil z)
  | close w r =>
    obtain ⟨rfl, rfl⟩ := Prod.mk.inj (Option.some.inj hecho)
    by_cases hin : x.inside w = none
    · rw [if_pos hin] at hz ⊢
      refine SendPath.run_call ⟨⟨nofun, nofun⟩, nofun⟩ ?_ hz
      intro u hu
      obtain ⟨-, hu⟩ := Option.ite_none_right_eq_some.mp hu
      obtain rfl := Option.some.inj hu
      rw [SendPath.State.pc_goto_self]
      nofun
    · rw [if_neg hin] at hz ⊢
      exact SendPath.run_next (by rw [(hready.resolve_left hin).2]; nofun) hz
  | work w =>
    rw [State.echo] at hecho
    cases hw : x.front.base.worker w <;> rw [hw] at hecho <;> try contradiction
    obtain ⟨rfl, rfl⟩ := Prod.mk.inj (Option.some.inj hecho)
    obtain ⟨b, hpc⟩ := h.linked.closer w _ (by rw [hw]; rfl) (by rw [hw]; rfl)
    exact SendPath.run_next (by rw [hpc]; nofun) hz
  | call w =>
    rw [State.echo] at hecho
    cases hcall : x.front.call w with
    | none =>
      rw [hcall] at hecho
      contradiction
    | some c =>
      obtain ⟨m, todo, loaded⟩ := c
      rw [hcall] at hecho
      cases todo with
      | nil => contradiction
      | cons r todo =>
        cases loaded with
        | false =>
          obtain ⟨rfl, rfl⟩ := Prod.mk.inj (Option.some.inj hecho)
          refine SendPath.run_call ⟨⟨nofun, nofun⟩, nofun⟩ ?_ hz
          intro u hu
          obtain ⟨-, hu⟩ := Option.ite_none_right_eq_some.mp hu
          obtain rfl := Option.some.inj hu
          rw [SendPath.State.pc_goto_self]
          nofun
        | true =>
          obtain ⟨rfl, rfl⟩ := Prod.mk.inj (Option.some.inj hecho)
          exact SendPath.run_next (by rw [h.linked.calling w m r todo hcall]; nofun) hz
  | _ => contradiction

theorem Inv.back_step (h : Inv cap x) {a : Act n} (hok : x.Prompt a) (hstep : Crowd.step x a = some y)
    (t : ℕ) : ∃ is, Exec SendPath.step Wakes (x.back t) is (y.back t) := by
  cases a with
  | front a =>
    obtain ⟨hready, hstep⟩ := Option.ite_none_right_eq_some.mp hstep
    obtain ⟨f, hf, hy⟩ := Option.bind_eq_some_iff.mp hstep
    cases hecho : x.echo a with
    | none =>
      rw [hecho] at hy
      obtain rfl := Option.some.inj hy
      exact ⟨[], .nil _⟩
    | some echo =>
      obtain ⟨s, steps⟩ := echo
      rw [hecho] at hy
      exact stepBack_back (x := { x with front := f }) (fun z hz => h.echo_run hok hready hecho hz) hy t
  | next w sendOk =>
    rw [Crowd.step, stepNext] at hstep
    cases hin : x.inside w with
    | none =>
      rw [hin] at hstep
      contradiction
    | some s =>
      rw [hin] at hstep
      have hback : x.stepBack w s [.next w sendOk] = some y := by
        cases hpc : (x.back s).pc w <;> simp_all
      refine stepBack_back (fun z hz => ?_) hback t
      rw [SendPath.runIf_one] at hz
      refine .cons ⟨⟨nofun, nofun⟩, ?_⟩ hz (.nil z)
      intro v ok heq
      obtain ⟨rfl, -⟩ := SendPath.Act.next.inj heq
      exact hok s hin
  | complete w s i =>
    obtain ⟨-, hback⟩ := Option.ite_none_right_eq_some.mp hstep
    refine stepBack_back (fun z hz => ?_) hback t
    rw [SendPath.runIf_one] at hz
    exact .cons ⟨⟨nofun, nofun⟩, nofun⟩ hz (.nil z)

/-- Every run of the server is a run of the front, and in each Session one of the sending side. -/
theorem parts_run {acts : List (Act n)} (h : Exec step State.Prompt (init n cap) acts x) :
    (∃ is, Exec Speakers.step Speakers.State.Timely (Speakers.init n cap) is x.front) ∧
      ∀ t, ∃ is, Exec SendPath.step Wakes SendPath.init is (x.back t) := by
  constructor
  · exact h.simulate (P := fun _ => True) (f := State.front)
      (fun _ _ _ _ hok hstep => ⟨trivial, front_step hok hstep⟩) trivial
  · intro t
    exact h.simulate (P := Inv cap) (f := fun x => x.back t)
      (fun _ _ _ hs hok hstep => ⟨hs.step hok hstep, hs.back_step hok hstep t⟩) (inv_init n cap)

/-- Nothing from before its entry into the table comes to a connection. -/
theorem Matched.range (h : Matched x) (hhears : x.front.Hears t k)
    (ht : x.front.base.At t (.inl .open)) :
    ∃ j, numbers k (x.front.told t) = List.range' (x.front.since t k) (j - x.front.since t k) ∧
      (x.front.said k = j ∧ ¬ Pending t k x.front.call ∨
        x.front.said k = j + 1 ∧ Pending t k x.front.call) := by
  obtain ⟨i, j, hij, hi, hi', hnum, hsaid⟩ := hhears
  refine ⟨j, ?_, hsaid⟩
  rcases Nat.eq_or_lt_of_le hi with heq | hlt
  · rw [← heq, hnum]
  · -- a message from before would be among those heard
    have hj : j = i := by
      by_contra hne
      have hmem : i ∈ numbers k (x.front.told t) := by
        rw [hnum, List.mem_range'_1]
        omega
      have hle := (h.heard t k ht).2 i hmem
      omega
    have hzero : i - x.front.since t k = 0 := by omega
    rw [hnum, hj, Nat.sub_self, hzero]
    rfl

/-- All together, with any number of workers: an open connection has one send in flight at most,
and what was handed to `WSASend`, popped and queued for it is what it was told, in this order; when
nobody is in its sending side and nothing is in flight, all of it has been handed over. It was told
nothing of itself, and of every other connection exactly what was broadcast since its entry into
the table, in order, up to the message that may be on its way now. -/
theorem told_handed {acts : List (Act n)} (h : Exec step State.Prompt (init n cap) acts x)
    (ht : x.front.base.At t (.inl .open)) :
    SendPath.OneSend (x.back t) ∧
      (∃ popped, SendPath.Popped (x.back t) popped ∧
        (x.back t).handed.flatten ++ popped ++ (x.back t).sendQueue = x.front.told t) ∧
      ((∀ w, ((x.back t).pc w).inside = false) → (x.back t).inFlight = [] →
        (x.back t).handed.flatten = x.front.told t) ∧
      numbers (x.front.base.server.sessions t).id (x.front.told t) = [] ∧
      ∀ k ≠ (x.front.base.server.sessions t).id, ∃ j,
        numbers k (x.front.told t) = List.range' (x.front.since t k) (j - x.front.since t k) ∧
          (x.front.said k = j ∧ ¬ Pending t k x.front.call ∨
            x.front.said k = j + 1 ∧ Pending t k x.front.call) := by
  obtain ⟨hfront, hlinked, hmatched⟩ := inv_run h
  obtain ⟨is, hback⟩ := (parts_run h).2 t
  have htold := hmatched.told t ht
  obtain ⟨hone, popped, hpopped, horder⟩ := SendPath.fifo_run hback
  refine ⟨hone, ⟨popped, hpopped, horder.trans htold⟩, ?_, hfront.own t ht, ?_⟩
  · intro hout hflight
    have hopen := (hlinked.closing t).trans ht.2
    exact (SendPath.handed_run hback hout hflight hopen).trans htold
  · intro k hk
    exact hmatched.range (hfront.hears t k ht hk) ht

/-- A worker accepts a connection and posts its receive. -/
def joins (w : Fin n) : List (Act n) :=
  .front (.accept w none) :: List.replicate 6 (.front (.work w)) ++
    [.front (.post w), .front (.recv w true)]

/-- One client speaks to the other; another worker handles the completion of the send. -/
def greets (v w : Fin n) : List (Act n) :=
  joins v ++ joins v ++ [.front (.complete v 0), .front (.announce v [0, 1]), .front (.call v),
    .front (.call v)] ++ List.replicate 5 (.next v true) ++ .complete w 1 0 ::
      List.replicate 3 (.next w true)

theorem told_handed_greets : ∃ x : State 2, x.front.told 1 = [.said 2 0] ∧
    (x.back 1).handed.flatten = x.front.told 1 := by
  obtain ⟨x, hx, htold, hout, hflight, hopen⟩ : ∃ x, Exec step State.Prompt (init 2 2) (greets 0 1) x ∧
      x.front.told 1 = [.said 2 0] ∧ (∀ w, ((x.back 1).pc w).inside = false) ∧
        (x.back 1).inFlight = [] ∧
          x.front.base.server.sessionTable.lookup (x.front.base.server.sessions 1).id = some 1 ∧
            (x.front.base.server.sessions 1).closing = false :=
    Exec.exists_of_runIf (by decide +kernel)
  exact ⟨x, htold, (told_handed hx hopen).2.2.1 hout hflight⟩

end IocpChat.Crowd
