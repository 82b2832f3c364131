import IocpChat.Lib.Runs
import IocpChat.Lib.Tally
import IocpChat.Spec.Shutdown

/-! `Stop` gets rid of its threads, whatever they are doing: it posts as many packets as there
are workers, and a worker takes at most one packet once `running_` is cleared. So none of them
waits for ever, and no thread is left when the sessions are closed. -/

namespace IocpChat.Shutdown

open Runs (Exec)
open Threads

variable {n : ℕ} {x y : State n} {w : Fin n}

/-- `running_` has been cleared in this call of `Stop`. -/
def Stop.cleared : Stop n → Bool
  | .out | .test | .clear => false
  | _ => true

def Stop.toPost : Stop n → ℕ
  | .closeListen => n
  | .post left => left
  | _ => 0

def Worker.waiting : Worker → ℕ
  | .wait => 1
  | _ => 0

structure Inv (x : State n) : Prop where
  cleared : x.stop.cleared = true → x.running = false
  clear : x.stop = .clear → x.running = true
  joined : ∀ left, x.stop = .join left → ∀ w, w ∈ left ∨ x.worker w = .done
  workers : x.stop = .joinStat → ∀ w, x.worker w = .done
  alone : x.stop.alone = true → x.Deserted
  ended : x.running = false → x.stop.cleared = false → x.Deserted
  /-- Whoever waits will find a packet. -/
  enough : x.running = false → tally Worker.waiting x.worker ≤ x.queue.length + x.stop.toPost

theorem inv_init (n : ℕ) : Inv (init n) where
  cleared h := by cases h
  clear _ := rfl
  joined left h := by cases h
  workers h := by cases h
  alone h := by cases h
  ended h := by cases h
  enough h := by cases h

theorem Inv.of_not_done (h : Inv x) (hr : x.running = false) (hw : x.worker w ≠ .done) :
    x.stop.cleared = true ∧ x.stop.alone = false ∧ x.stop ≠ .joinStat := by
  refine ⟨?_, ?_, ?_⟩
  · by_contra hc
    rw [Bool.not_eq_true] at hc
    exact hw ((h.ended hr hc).workers w)
  · by_contra ha
    rw [Bool.not_eq_false] at ha
    exact hw ((h.alone ha).workers w)
  · intro hs
    exact hw (h.workers hs w)

/-- A worker moves, and may take a packet; once `running_` is cleared it does not wait again. -/
theorem Inv.move (h : Inv x) {p : Worker} {queue : List Packet} {sessions : ℕ} (hw : x.worker w ≠ .done)
    (hp : x.running = false → p ≠ .wait)
    (hq : x.running = false → x.queue.length ≤ queue.length + (x.worker w).waiting) :
    Inv { x.goto w p with queue, sessions } := by
  cases hr : x.running with
  | true =>
    have hno : x.stop.cleared = false := by
      by_contra hc
      rw [Bool.not_eq_false] at hc
      rw [h.cleared hc] at hr
      contradiction
    refine ⟨h.cleared, h.clear, ?_, ?_, ?_, ?_, ?_⟩
    · intro left hs
      have hs' : x.stop = .join left := hs
      rw [hs'] at hno
      contradiction
    · intro hs
      have hs' : x.stop = .joinStat := hs
      rw [hs'] at hno
      contradiction
    · intro ha
      have ha' : x.stop.alone = true := ha
      cases hs : x.stop <;> rw [hs] at ha' hno <;> contradiction
    · intro hf
      exact absurd (hf.symm.trans hr) Bool.false_ne_true
    · intro hf
      exact absurd (hf.symm.trans hr) Bool.false_ne_true
  | false =>
    obtain ⟨hc, ha, hj⟩ := h.of_not_done hr hw
    have htally := tally_update Worker.waiting x.worker w p
    have hzero : p.waiting = 0 := by
      cases p with
      | wait => exact absurd rfl (hp hr)
      | _ => rfl
    have henough := h.enough hr
    have hroom := hq hr
    refine ⟨h.cleared, h.clear, ?_, ?_, ?_, ?_, ?_⟩
    · intro left hs v
      by_cases hv : v = w
      · subst hv
        exact .inl ((h.joined left hs v).resolve_right hw)
      · refine (h.joined left hs v).imp_right ?_
        intro hdone
        exact (Function.update_of_ne hv ..).trans hdone
    · intro hs
      exact absurd hs hj
    · intro ha'
      exact absurd (ha.symm.trans ha') Bool.false_ne_true
    · intro _ hc'
      exact absurd (hc'.symm.trans hc) Bool.false_ne_true
    · intro _
      change tally Worker.waiting (Function.update x.worker w p) ≤ queue.length + x.stop.toPost
      omega

inductive WorkerStep (x : State n) (w : Fin n) : State n → Prop
  | enter (hw : x.worker w = .test) (hr : x.running = true) : WorkerStep x w (x.goto w .wait)
  | leave (hw : x.worker w = .test) (hr : x.running = false) : WorkerStep x w (x.goto w .done)
  | take (packet : Packet) (queue : List Packet) (hw : x.worker w = .wait)
      (hq : x.queue = packet :: queue) : WorkerStep x w { x.goto w (.look (some packet)) with queue }
  | quit (packet : Option Packet) (hw : x.worker w = .look packet) (hr : x.running = false) :
      WorkerStep x w (x.goto w .done)
  | serve (hw : x.worker w = .look (some .io)) (hr : x.running = true) :
      WorkerStep x w (x.goto w .handle)
  | skip (packet : Option Packet) (hw : x.worker w = .look packet) (hr : x.running = true) :
      WorkerStep x w (x.goto w .test)

theorem workerStep_of (h : stepWorker x w = some y) : WorkerStep x w y := by
  unfold stepWorker at h
  cases hw : x.worker w with
  | test =>
    rw [hw] at h
    obtain rfl := Option.some.inj h
    cases hr : x.running with
    | true => exact .enter hw hr
    | false => exact .leave hw hr
  | wait =>
    rw [hw] at h
    cases hq : x.queue with
    | nil =>
      simp only [hq] at h
      contradiction
    | cons packet queue =>
      simp only [hq] at h
      obtain rfl := Option.some.inj h
      exact .take packet queue hw hq
  | look packet =>
    rw [hw] at h
    obtain rfl := Option.some.inj h
    cases hr : x.running with
    | true =>
      by_cases hp : packet = some .io
      · subst hp
        exact .serve hw hr
      · simp only [hp, Bool.not_true, Bool.false_eq_true, if_false]
        exact .skip packet hw hr
    | false => exact .quit packet hw hr
  | handle =>
    rw [hw] at h
    contradiction
  | done =>
    rw [hw] at h
    contradiction

theorem Inv.worker (h : Inv x) (hs : WorkerStep x w y) : Inv y := by
  have hstay {p : Worker} (hw : x.worker w ≠ .done) (hp : x.running = false → p ≠ .wait) :
      Inv (x.goto w p) := h.move hw hp fun _ => Nat.le_add_right _ _
  cases hs with
  | enter hw hr => exact hstay (by rw [hw]; decide) fun hf => by rw [hf] at hr; contradiction
  | leave hw hr => exact hstay (by rw [hw]; decide) fun _ => by decide
  | take packet queue hw hq =>
    refine h.move (by rw [hw]; decide) (fun _ => by simp) ?_
    intro _
    rw [hq, hw]
    exact le_rfl
  | quit packet hw hr => exact hstay (by rw [hw]; simp) fun _ => by decide
  | serve hw hr => exact hstay (by rw [hw]; decide) fun _ => by decide
  | skip packet hw hr => exact hstay (by rw [hw]; simp) fun _ => by decide

/-- `Stop` goes on, with no packet less to be found or posted. -/
theorem Inv.advance (h : Inv x) (hx : x.running = false) (hr : y.running = false)
    (hw : y.worker = x.worker) (hs : y.stat = x.stat)
    (hroom : x.queue.length + x.stop.toPost ≤ y.queue.length + y.stop.toPost)
    (hclear : y.stop ≠ .clear) (hjoin : ∀ left, y.stop = .join left → ∀ w, w ∈ left ∨ x.worker w = .done)
    (hworkers : y.stop = .joinStat → ∀ w, x.worker w = .done)
    (halone : y.stop.alone = true ∨ y.stop.cleared = false → x.Deserted) : Inv y := by
  have hsame (hd : x.Deserted) : y.Deserted := ⟨hw ▸ hd.workers, hs.trans hd.stat⟩
  refine ⟨fun _ => hr, fun hc => absurd hc hclear, ?_, ?_, ?_, ?_, ?_⟩
  · rw [hw]
    exact hjoin
  · rw [hw]
    exact hworkers
  · exact fun ha => hsame (halone (.inl ha))
  · exact fun _ hc => hsame (halone (.inr hc))
  · intro _
    rw [hw]
    exact (h.enough hx).trans hroom

inductive StopStep (x : State n) : State n → Prop
  | again (hs : x.stop = .test) (hr : x.running = false) : StopStep x { x with stop := .out }
  | enter (hs : x.stop = .test) (hr : x.running = true) : StopStep x { x with stop := .clear }
  | clear (hs : x.stop = .clear) : StopStep x { x with running := false, stop := .closeListen }
  | closeListen (hs : x.stop = .closeListen) :
      StopStep x { x with listenCloses := x.listenCloses + 1, stop := .post n }
  | post (left : ℕ) (hs : x.stop = .post (left + 1)) :
      StopStep x { x with queue := x.queue ++ [.wake], stop := .post left }
  | posted (hs : x.stop = .post 0) : StopStep x { x with stop := .join (List.finRange n) }
  | join (w : Fin n) (left : List (Fin n)) (hs : x.stop = .join (w :: left))
      (hw : x.worker w = .done) : StopStep x { x with stop := .join left }
  | joined (hs : x.stop = .join []) : StopStep x { x with stop := .joinStat }
  | joinStat (hs : x.stop = .joinStat) (ht : x.stat = .done) :
      StopStep x { x with stop := .closeSessions }
  | closeSessions (hs : x.stop = .closeSessions) (hnone : x.sessions = 0) :
      StopStep x { x with stop := .closeHandle }
  | closeHandle (hs : x.stop = .closeHandle) :
      StopStep x { x with handleCloses := x.handleCloses + 1, stop := .cleanup }
  | cleanup (hs : x.stop = .cleanup) :
      StopStep x { x with cleanups := x.cleanups + 1, stop := .out }

theorem stopStep_of (h : stepStop x = some y) : StopStep x y := by
  unfold stepStop at h
  split at h
  case h_1 => contradiction
  case h_2 hs =>
    obtain rfl := Option.some.inj h
    by_cases hr : x.running = true
    · rw [if_pos hr]
      exact .enter hs hr
    · rw [if_neg hr]
      exact .again hs (Bool.eq_false_iff.mpr hr)
  case h_3 hs => exact Option.some.inj h ▸ .clear hs
  case h_4 hs => exact Option.some.inj h ▸ .closeListen hs
  case h_5 hs => exact Option.some.inj h ▸ .posted hs
  case h_6 left hs => exact Option.some.inj h ▸ .post left hs
  case h_7 hs => exact Option.some.inj h ▸ .joined hs
  case h_8 w left hs =>
    obtain ⟨hw, hy⟩ := Option.ite_none_right_eq_some.mp h
    obtain rfl := Option.some.inj hy
    exact .join w left hs hw
  case h_9 hs =>
    obtain ⟨ht, hy⟩ := Option.ite_none_right_eq_some.mp h
    obtain rfl := Option.some.inj hy
    exact .joinStat hs ht
  case h_10 hs =>
    obtain ⟨hnone, hy⟩ := Option.ite_none_right_eq_some.mp h
    obtain rfl := Option.some.inj hy
    exact .closeSessions hs hnone
  case h_11 hs => exact Option.some.inj h ▸ .closeHandle hs
  case h_12 hs => exact Option.some.inj h ▸ .cleanup hs

theorem Inv.stop (h : Inv x) (hstep : StopStep x y) : Inv y := by
  have hfalse {p : Stop n} (hs : x.stop = p) (hp : p.cleared = true) : x.running = false :=
    h.cleared (hs ▸ hp)
  cases hstep with
  | again hs hr =>
    have hgone := h.ended hr (by rw [hs]; rfl)
    exact h.advance hr hr rfl rfl (by rw [hs]; rfl) nofun nofun nofun fun _ => hgone
  | enter hs hr =>
    have hno (hf : x.running = false) : False := Bool.false_ne_true (hf.symm.trans hr)
    exact ⟨nofun, fun _ => hr, nofun, nofun, nofun, fun hf => (hno hf).elim, fun hf => (hno hf).elim⟩
  | clear hs =>
    refine ⟨fun _ => rfl, nofun, nofun, nofun, nofun, nofun, ?_⟩
    intro _
    -- every worker may be waiting, and as many packets are about to be posted
    have hall : tally Worker.waiting x.worker ≤ Fintype.card (Fin n) * 1 :=
      tally_le fun p => by cases p <;> simp [Worker.waiting]
    rw [Fintype.card_fin, Nat.mul_one] at hall
    exact hall.trans (Nat.le_add_left _ _)
  | closeListen hs =>
    have hr := hfalse hs rfl
    exact h.advance hr hr rfl rfl (by rw [hs]; rfl) nofun nofun nofun nofun
  | post left hs =>
    have hr := hfalse hs rfl
    refine h.advance hr hr rfl rfl ?_ nofun nofun nofun nofun
    rw [hs, List.length_append]
    exact (Nat.succ_add_eq_add_succ _ _).ge
  | posted hs =>
    have hr := hfalse hs rfl
    refine h.advance hr hr rfl rfl (by rw [hs]; rfl) nofun ?_ nofun nofun
    intro left hleft w
    obtain rfl := Stop.join.inj hleft
    exact .inl (List.mem_finRange w)
  | join v left hs hdone =>
    have hr := hfalse hs rfl
    refine h.advance hr hr rfl rfl (by rw [hs]; rfl) nofun ?_ nofun nofun
    intro left' hleft w
    obtain rfl := Stop.join.inj hleft
    rcases h.joined _ hs w with hmem | hw
    · rcases List.mem_cons.mp hmem with rfl | hmem
      · exact .inr hdone
      · exact .inl hmem
    · exact .inr hw
  | joined hs =>
    have hr := hfalse hs rfl
    refine h.advance hr hr rfl rfl (by rw [hs]; rfl) nofun nofun ?_ nofun
    exact fun _ w => (h.joined _ hs w).resolve_left List.not_mem_nil
  | joinStat hs hdone =>
    have hr := hfalse hs rfl
    refine h.advance hr hr rfl rfl (by rw [hs]; rfl) nofun nofun nofun ?_
    exact fun _ => ⟨h.workers hs, hdone⟩
  | closeSessions hs hnone =>
    have hr := hfalse hs rfl
    refine h.advance hr hr rfl rfl (by rw [hs]; rfl) nofun nofun nofun ?_
    exact fun _ => h.alone (by rw [hs]; rfl)
  | closeHandle hs =>
    have hr := hfalse hs rfl
    refine h.advance hr hr rfl rfl (by rw [hs]; rfl) nofun nofun nofun ?_
    exact fun _ => h.alone (by rw [hs]; rfl)
  | cleanup hs =>
    have hr := hfalse hs rfl
    refine h.advance hr hr rfl rfl (by rw [hs]; rfl) nofun nofun nofun ?_
    exact fun _ => h.alone (by rw [hs]; rfl)

def Stat.rank : Stat → ℕ
  | .test => 1
  | .sleep => 3
  | .print => 2
  | .done => 0

theorem stepStat_of (h : stepStat x = some y) : x.stat ≠ .done ∧
    ∃ t, y = { x with stat := t } ∧ (x.running = false → t.rank + 1 = x.stat.rank) := by
  unfold stepStat at h
  split at h
  case h_1 hs =>
    refine ⟨by rw [hs]; decide, _, (Option.some.inj h).symm, ?_⟩
    intro hr
    rw [hs, if_neg (Bool.eq_false_iff.mp hr)]
    rfl
  case h_2 hs => exact ⟨by rw [hs]; decide, _, (Option.some.inj h).symm, fun _ => by rw [hs]; rfl⟩
  case h_3 hs => exact ⟨by rw [hs]; decide, _, (Option.some.inj h).symm, fun _ => by rw [hs]; rfl⟩
  case h_4 => contradiction

theorem Inv.stat (h : Inv x) (hs : x.stat ≠ .done) (t : Stat) : Inv { x with stat := t } := by
  have hno (hd : x.Deserted) : ({ x with stat := t } : State n).Deserted := absurd hd.stat hs
  exact ⟨h.cleared, h.clear, h.joined, h.workers, fun ha => hno (h.alone ha),
    fun hr hc => hno (h.ended hr hc), h.enough⟩

/-- Only the thread in `Stop` changes `running_` and closes anything. -/
theorem step_frame {a : Act n} (hstep : step x a = some y) (hcall : a ≠ .call) (hstop : a ≠ .stop) :
    y.running = x.running ∧ y.stop = x.stop ∧ y.listenCloses = x.listenCloses ∧
      y.handleCloses = x.handleCloses ∧ y.cleanups = x.cleanups := by
  cases a with
  | call => contradiction
  | stop => contradiction
  | worker w => cases workerStep_of hstep <;> exact ⟨rfl, rfl, rfl, rfl, rfl⟩
  | stat =>
    obtain ⟨-, t, rfl, -⟩ := stepStat_of hstep
    exact ⟨rfl, rfl, rfl, rfl, rfl⟩
  | handled w sessions | fail w =>
    obtain ⟨-, hy⟩ := Option.ite_none_right_eq_some.mp hstep
    obtain rfl := Option.some.inj hy
    exact ⟨rfl, rfl, rfl, rfl, rfl⟩
  | complete =>
    obtain rfl := Option.some.inj hstep
    exact ⟨rfl, rfl, rfl, rfl, rfl⟩

theorem Inv.step (h : Inv x) {a : Act n} (hstep : step x a = some y) : Inv y := by
  cases a with
  | call =>
    simp only [Shutdown.step, Option.ite_none_right_eq_some, Option.some.injEq] at hstep
    obtain ⟨hout, rfl⟩ := hstep
    refine ⟨nofun, nofun, nofun, nofun, nofun, ?_, ?_⟩
    · intro hr _
      have hgone := h.ended hr (by rw [hout]; rfl)
      exact ⟨hgone.workers, hgone.stat⟩
    · intro hr
      have henough := h.enough hr
      rw [hout] at henough
      exact henough
  | stop => exact h.stop (stopStep_of hstep)
  | worker w => exact h.worker (workerStep_of hstep)
  | handled w sessions =>
    simp only [Shutdown.step, Option.ite_none_right_eq_some, Option.some.injEq] at hstep
    obtain ⟨hw, rfl⟩ := hstep
    exact h.move (by rw [hw]; decide) (fun _ => by decide) fun _ => Nat.le_add_right _ _
  | fail w =>
    simp only [Shutdown.step, Option.ite_none_right_eq_some, Option.some.injEq] at hstep
    obtain ⟨hw, rfl⟩ := hstep
    exact h.move (by rw [hw]; decide) (fun _ => by decide) fun _ => Nat.le_add_right _ _
  | stat =>
    obtain ⟨hs, t, rfl, -⟩ := stepStat_of hstep
    exact h.stat hs t
  | complete =>
    obtain rfl := Option.some.inj hstep
    have hsame (hd : x.Deserted) : ({ x with queue := x.queue ++ [.io] } : State n).Deserted :=
      ⟨hd.workers, hd.stat⟩
    refine ⟨h.cleared, h.clear, h.joined, h.workers, fun ha => hsame (h.alone ha),
      fun hr hc => hsame (h.ended hr hc), ?_⟩
    intro hr
    have henough := h.enough hr
    rw [List.length_append]
    exact henough.trans (Nat.add_le_add_right (Nat.le_add_right _ _) _)

theorem inv_run {ok : State n → Act n → Prop} {acts : List (Act n)}
    (h : Exec Shutdown.step ok (init n) acts x) : Inv x :=
  h.invariant (fun _ _ _ hx _ hstep => hx.step hstep) (inv_init n)

/-! ### How far it is -/

def Worker.rank : Worker → ℕ
  | .test | .look _ => 1
  | .wait | .handle => 2
  | .done => 0

/-- The steps that are left in a call of `Stop` that cleared `running_`, or found it cleared. -/
def Stop.rank : Stop n → ℕ
  | .out => 0
  | .test | .cleanup => 1
  | .clear => 8 + 2 * n
  | .closeListen => 7 + 2 * n
  | .post left => 6 + n + left
  | .join left => 5 + left.length
  | .joinStat => 4
  | .closeSessions => 3
  | .closeHandle => 2

def State.toDo (x : State n) : ℕ := x.stop.rank + x.stat.rank + tally Worker.rank x.worker

theorem toDo_goto (w : Fin n) (p : Worker) (queue : List Packet) (sessions : ℕ) :
    ({ x.goto w p with queue, sessions } : State n).toDo + (x.worker w).rank = x.toDo + p.rank := by
  have htally := tally_update Worker.rank x.worker w p
  simp only [State.toDo, State.goto]
  omega

theorem toDo_worker (hr : x.running = false) (h : WorkerStep x w y) :
    y.running = false ∧ y.toDo + 1 = x.toDo := by
  cases h with
  | enter hw hr' | serve hw hr' | skip _ hw hr' =>
    rw [hr] at hr'
    contradiction
  | leave hw hr' | quit _ hw hr' =>
    have htodo := toDo_goto (x := x) w .done x.queue x.sessions
    rw [hw] at htodo
    exact ⟨hr, htodo⟩
  | take packet queue hw hq =>
    have htodo := toDo_goto (x := x) w (.look (some packet)) queue x.sessions
    rw [hw] at htodo
    exact ⟨hr, Nat.succ.inj htodo⟩

theorem rank_stop (h : Inv x) (hr : x.running = false) (hstep : StopStep x y) :
    y.running = false ∧ y.stop.rank + 1 = x.stop.rank := by
  cases hstep with
  | enter hs hr' =>
    rw [hr] at hr'
    contradiction
  | clear hs =>
    rw [h.clear hs] at hr
    contradiction
  | closeListen hs =>
    refine ⟨hr, ?_⟩
    simp only [hs, Stop.rank]
    omega
  | posted hs =>
    refine ⟨hr, ?_⟩
    simp only [hs, Stop.rank, List.length_finRange]
    omega
  | again hs | post _ hs | join _ _ hs | joined hs | joinStat hs | closeSessions hs
  | closeHandle hs | cleanup hs => exact ⟨hr, by rw [hs]; rfl⟩

theorem toDo_stop (h : Inv x) (hr : x.running = false) (hstep : StopStep x y) :
    y.running = false ∧ y.toDo + 1 = x.toDo := by
  obtain ⟨hr', hrank⟩ := rank_stop h hr hstep
  have hthreads : y.worker = x.worker ∧ y.stat = x.stat := by
    cases hstep <;> exact ⟨rfl, rfl⟩
  refine ⟨hr', ?_⟩
  rw [State.toDo, State.toDo, hthreads.1, hthreads.2]
  omega

/-- Once `running_` is cleared, every step of a thread is one step less to do. -/
theorem toDo_step (h : Inv x) (hr : x.running = false) {a : Act n} (ha : a ≠ .call)
    (hstep : step x a = some y) :
    y.running = false ∧ y.toDo + (if a.isThread then 1 else 0) ≤ x.toDo := by
  cases a with
  | call => contradiction
  | stop => exact (toDo_stop h hr (stopStep_of hstep)).imp_right Eq.le
  | worker w => exact (toDo_worker hr (workerStep_of hstep)).imp_right Eq.le
  | stat =>
    obtain ⟨-, t, rfl, ht⟩ := stepStat_of hstep
    refine ⟨hr, ?_⟩
    have hrank := ht hr
    simp only [State.toDo, Act.isThread, if_true]
    omega
  | handled w sessions =>
    simp only [Shutdown.step, Option.ite_none_right_eq_some, Option.some.injEq] at hstep
    obtain ⟨hw, rfl⟩ := hstep
    have htodo := toDo_goto (x := x) w .test x.queue sessions
    rw [hw] at htodo
    exact ⟨hr, (Nat.succ.inj htodo).le⟩
  | fail w =>
    simp only [Shutdown.step, Option.ite_none_right_eq_some, Option.some.injEq] at hstep
    obtain ⟨hw, rfl⟩ := hstep
    have htodo := toDo_goto (x := x) w (.look none) x.queue x.sessions
    rw [hw] at htodo
    exact ⟨hr, (Nat.succ.inj htodo).le⟩
  | complete =>
    obtain rfl := Option.some.inj hstep
    exact ⟨hr, le_rfl⟩

theorem short_run {ok : State n → Act n → Prop} {acts : List (Act n)}
    (h : Exec Shutdown.step ok (init n) acts x) : x.running = false → x.stop.rank ≤ 7 + 2 * n := by
  refine (h.invariant (P := fun x => Inv x ∧ (x.running = false → x.stop.rank ≤ 7 + 2 * n)) ?_
    ⟨inv_init n, nofun⟩).2
  intro x a y ⟨hinv, hshort⟩ _ hstep
  refine ⟨hinv.step hstep, ?_⟩
  by_cases hcall : a = .call
  · subst hcall
    obtain ⟨-, hy⟩ := Option.ite_none_right_eq_some.mp hstep
    obtain rfl := Option.some.inj hy
    exact fun _ => Nat.le_add_right_of_le (by decide : 1 ≤ 7)
  by_cases hstop : a = .stop
  · subst hstop
    intro hr'
    have hs := stopStep_of hstep
    by_cases hr : x.running = false
    · have hrank := (rank_stop hinv hr hs).2
      have hbound := hshort hr
      omega
    · cases hs with
      | clear => exact le_rfl
      | _ => exact absurd hr' hr
  · obtain ⟨hr, hs, -⟩ := step_frame hstep hcall hstop
    rw [hr, hs]
    exact hshort

theorem toDo_le (h : x.stop.rank ≤ 7 + 2 * n) : x.toDo ≤ 4 * n + 10 := by
  have hstat : x.stat.rank ≤ 3 := by
    cases x.stat <;> decide
  have hworkers : tally Worker.rank x.worker ≤ Fintype.card (Fin n) * 2 :=
    tally_le fun p => by cases p <;> simp [Worker.rank]
  rw [Fintype.card_fin] at hworkers
  rw [State.toDo]
  omega

/-! ### Nobody waits for ever -/

theorem worker_moves (hw : x.worker w ≠ .done) (hwait : x.worker w ≠ .wait) : x.Moves := by
  cases hs : x.worker w with
  | done => exact absurd hs hw
  | wait => exact absurd hs hwait
  | test =>
    refine ⟨.worker w, rfl, nofun, ?_⟩
    simp only [Shutdown.step, stepWorker, hs, Option.isSome_some]
  | look packet =>
    refine ⟨.worker w, rfl, nofun, ?_⟩
    simp only [Shutdown.step, stepWorker, hs, Option.isSome_some]
  | handle =>
    refine ⟨.handled w 0, rfl, nofun, ?_⟩
    simp only [Shutdown.step, if_pos hs, Option.isSome_some]

theorem Inv.progress (h : Inv x) (hr : x.running = false) : x.Through ∨ x.Moves := by
  have hstop (hsome : (stepStop x).isSome = true) : x.Moves := ⟨.stop, rfl, nofun, hsome⟩
  cases hs : x.stop with
  | out => exact .inl (.inl hs)
  | closeSessions =>
    by_cases hnone : x.sessions = 0
    · exact .inr (hstop (by rw [stepStop, hs]; exact Option.isSome_of_eq_some (if_pos hnone)))
    · exact .inl (.inr ⟨hs, hnone⟩)
  | join left =>
    right
    cases left with
    | nil => exact hstop (by rw [stepStop, hs]; rfl)
    | cons w left =>
      by_cases hdone : x.worker w = .done
      · exact hstop (by rw [stepStop, hs]; exact Option.isSome_of_eq_some (if_pos hdone))
      by_cases hwait : x.worker w = .wait
      · -- all packets are posted, so one is there for whoever waits
        have hone : (x.worker w).waiting ≤ tally Worker.waiting x.worker := le_tally _ _ w
        have henough := h.enough hr
        rw [hs] at henough
        rw [hwait] at hone
        cases hq : x.queue with
        | nil =>
          rw [hq] at henough
          exact absurd (hone.trans henough) (Nat.not_succ_le_zero _)
        | cons packet queue =>
          refine ⟨.worker w, rfl, nofun, ?_⟩
          simp only [Shutdown.step, stepWorker, hwait, hq, Option.isSome_some]
      · exact worker_moves hdone hwait
  | joinStat =>
    right
    by_cases hdone : x.stat = .done
    · exact hstop (by rw [stepStop, hs]; exact Option.isSome_of_eq_some (if_pos hdone))
    · refine ⟨.stat, rfl, nofun, ?_⟩
      simp only [Shutdown.step, stepStat]
      cases ht : x.stat with
      | done => exact absurd ht hdone
      | _ => rfl
  | post left =>
    right
    cases left <;> exact hstop (by rw [stepStop, hs]; rfl)
  | test | clear | closeListen | closeHandle | cleanup =>
    exact .inr (hstop (by rw [stepStop, hs]; rfl))

/-! ### What is closed -/

structure Counted (x : State n) : Prop where
  listen : x.listenCloses = if x.running = true ∨ x.stop = .closeListen then 0 else 1
  handle : x.handleCloses =
    if x.running = false ∧ (x.stop = .cleanup ∨ x.stop.cleared = false) then 1 else 0
  cleanup : x.cleanups = if x.running = false ∧ x.stop.cleared = false then 1 else 0

theorem Counted.stop (h : Counted x) (hinv : Inv x) (hstep : StopStep x y) : Counted y := by
  obtain ⟨hl, hh, hc⟩ := h
  have hcleared := hinv.cleared
  have hclear := hinv.clear
  cases hstep with
  | again hs hr | enter hs hr | join _ _ hs hr | joinStat hs hr | closeSessions hs hr =>
    constructor <;> simp_all [Stop.cleared]
  | clear hs | closeListen hs | post _ hs | posted hs | joined hs | closeHandle hs | cleanup hs =>
    constructor <;> simp_all [Stop.cleared]

theorem counted_run {ok : State n → Act n → Prop} {acts : List (Act n)}
    (h : Exec Shutdown.step ok (init n) acts x) : Counted x := by
  refine (h.invariant (P := fun x => Inv x ∧ Counted x) ?_ ⟨inv_init n, ⟨rfl, rfl, rfl⟩⟩).2
  intro x a y ⟨hinv, hcount⟩ _ hstep
  refine ⟨hinv.step hstep, ?_⟩
  by_cases hcall : a = .call
  · subst hcall
    obtain ⟨hout, hy⟩ := Option.ite_none_right_eq_some.mp hstep
    obtain rfl := Option.some.inj hy
    obtain ⟨hl, hh, hc⟩ := hcount
    constructor <;> simp_all [Stop.cleared]
  by_cases hstop : a = .stop
  · subst hstop
    exact hcount.stop hinv (stopStep_of hstep)
  · obtain ⟨hr, hs, hl, hh, hc⟩ := step_frame hstep hcall hstop
    exact ⟨by rw [hl, hr, hs, hcount.listen], by rw [hh, hr, hs, hcount.handle],
      by rw [hc, hr, hs, hcount.cleanup]⟩

/-! ### The end -/

/-- No completion is served any more. -/
theorem late_run {after : List (Act n)} (hr : x.running = false) (hx : Inv x)
    (h : Exec Shutdown.step (fun _ a => a ≠ .call) x after y) :
    Inv y ∧ y.running = false ∧ ∀ w, y.worker w = .handle → x.worker w = .handle := by
  refine h.invariant (P := fun y => Inv y ∧ y.running = false ∧
    ∀ w, y.worker w = .handle → x.worker w = .handle) ?_ ⟨hx, hr, fun _ hw => hw⟩
  intro y a z ⟨hinv, hr, hlate⟩ hok hstep
  refine ⟨hinv.step hstep, (toDo_step hinv hr hok hstep).1, ?_⟩
  intro v hv
  have hgoto {w : Fin n} {p : Worker} (hp : p ≠ .handle)
      (hz : z.worker = Function.update y.worker w p) : y.worker v = .handle := by
    rw [hz] at hv
    by_cases hvw : v = w
    · rw [hvw, Function.update_self] at hv
      exact absurd hv hp
    · rwa [Function.update_of_ne hvw] at hv
  apply hlate
  cases a with
  | call => contradiction
  | stop => cases stopStep_of hstep <;> exact hv
  | worker w =>
    cases workerStep_of hstep with
    | serve hw hr' =>
      rw [hr] at hr'
      contradiction
    | _ => exact hgoto (by nofun) rfl
  | stat =>
    obtain ⟨-, t, rfl, -⟩ := stepStat_of hstep
    exact hv
  | handled w sessions | fail w =>
    obtain ⟨-, hz⟩ := Option.ite_none_right_eq_some.mp hstep
    obtain rfl := Option.some.inj hz
    exact hgoto (by nofun) rfl
  | complete =>
    obtain rfl := Option.some.inj hstep
    exact hv

/-- From the moment `running_` is cleared, whatever its threads were doing, the server takes at
most `4 * n + 10` more steps, none of them into a completion handler, and no thread waits for
ever: some thread can go on until `Stop` is through, and then no thread is left. -/
theorem threads_end {acts after : List (Act n)} (hx : Exec step (fun _ _ => True) (init n) acts x)
    (hr : x.running = false) (hy : Exec step (fun _ a => a ≠ .call) x after y) :
    after.countP Act.isThread ≤ 4 * n + 10 ∧ (∀ w, y.worker w = .handle → x.worker w = .handle) ∧
      (y.Through ∨ y.Moves) ∧ (y.Through → y.Deserted) := by
  obtain ⟨hinv, hr', hlate⟩ := late_run hr (inv_run hx) hy
  refine ⟨?_, hlate, hinv.progress hr', ?_⟩
  · have hcount := hy.countP_le (P := fun x => Inv x ∧ x.running = false) (m := State.toDo)
      (p := Act.isThread) (fun s a t hs hok hstep =>
        have hless := toDo_step hs.1 hs.2 hok hstep
        ⟨⟨hs.1.step hstep, hless.1⟩, hless.2⟩) ⟨inv_run hx, hr⟩
    exact (Nat.le_add_right _ _).trans (hcount.trans (toDo_le (short_run hx hr)))
  · rintro (hout | ⟨hclose, -⟩)
    · exact hinv.ended hr' (by rw [hout]; rfl)
    · exact hinv.alone (by rw [hclose]; rfl)

/-- One worker is in a completion handler, the other one waits. -/
def busy : List (Act 2) :=
  [.worker 0, .worker 1, .complete, .worker 1, .worker 1, .stat, .call, .stop, .stop]

def ending : List (Act 2) :=
  [.stop, .stop, .worker 0, .stop, .stop, .worker 0, .handled 1 0, .stop, .worker 1, .stop, .stop,
    .stat, .stat, .stat, .stop, .stop, .stop, .stop]

theorem threads_end_busy : ∃ y : State 2, y.stop = .out ∧ y.cleanups = 1 ∧ y.Deserted := by
  obtain ⟨x, hx, hr, hrest⟩ : ∃ x, Exec step (fun _ _ => True) (init 2) busy x ∧
      x.running = false ∧ (Runs.runIf step (fun _ a => a ≠ .call) x ending).any
        (fun y => decide (y.stop = .out ∧ y.cleanups = 1)) = true :=
    Exec.exists_of_runIf (by decide +kernel)
  obtain ⟨y, hy, hout, hclean⟩ := Exec.exists_of_runIf
    (P := fun y : State 2 => y.stop = .out ∧ y.cleanups = 1) hrest
  exact ⟨y, hout, hclean, (threads_end hx hr hy).2.2.2 (.inl hout)⟩

/-- However often and whenever `Stop` is called, it closes the sessions and the completion port
when no thread is left that could use them, and it closes everything once. -/
theorem closed_once {acts : List (Act n)} (h : Exec step (fun _ _ => True) (init n) acts x) :
    (x.stop.alone = true ∨ 0 < x.handleCloses → x.Deserted) ∧ x.cleanups ≤ x.handleCloses ∧
      x.handleCloses ≤ x.listenCloses ∧ x.listenCloses ≤ 1 ∧
        (x.running = false → x.stop = .out → x.cleanups = 1) := by
  have hinv := inv_run h
  obtain ⟨hl, hh, hc⟩ := counted_run h
  refine ⟨?_, ?_, ?_, ?_, ?_⟩
  · rintro (halone | hpos)
    · exact hinv.alone halone
    · rw [hh] at hpos
      split_ifs at hpos with hclosed
      · rcases hclosed.2 with hs | hs
        · exact hinv.alone (by rw [hs]; rfl)
        · exact hinv.ended hclosed.1 hs
      · contradiction
  · rw [hc, hh]
    split_ifs with hclean hclosed
    · exact le_rfl
    · exact absurd ⟨hclean.1, .inr hclean.2⟩ hclosed
    · exact Nat.zero_le _
    · exact le_rfl
  · rw [hh, hl]
    split_ifs with hclosed hopen
    · rcases hopen with hr | hs
      · rw [hr] at hclosed
        exact absurd hclosed.1 (by decide)
      · rw [hs] at hclosed
        exact absurd hclosed.2 (by simp [Stop.cleared])
    · exact le_rfl
    · exact le_rfl
    · exact Nat.zero_le _
  · rw [hl]
    split_ifs
    · exact Nat.zero_le _
    · exact le_rfl
  · intro hr hs
    rw [hc, hr, hs]
    rfl

theorem closed_once_busy : ∃ x : State 2, x.stop = .out ∧ x.cleanups = 1 ∧ x.listenCloses ≤ 1 ∧
    x.Deserted := by
  obtain ⟨x, hx, hout, hclean, hpos⟩ : ∃ x, Exec step (fun _ _ => True) (init 2)
      (busy ++ ending ++ [.call, .stop]) x ∧ x.stop = .out ∧ x.cleanups = 1 ∧ 0 < x.handleCloses :=
    Exec.exists_of_runIf (by decide +kernel)
  have honce := closed_once hx
  exact ⟨x, hout, hclean, honce.2.2.2.1, honce.1 (.inr hpos)⟩

end IocpChat.Shutdown
