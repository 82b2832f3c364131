import IocpChat.Lib.Custody
import IocpChat.Lib.Runs
import IocpChat.Spec.ClientRun

/-! Every thread of the client calls `stop`, and one of them gets to release the socket and
WinSock. What has been released is read off the place of that one right. -/

namespace IocpChat.ClientRun

open Runs (Exec)
open Custody (Agrees)

/-- Where the right to release lies when no thread has it. -/
inductive Shelf
  | pending
  | released

abbrev Place := Custody.Place Thread (Option Stop) Shelf

/-- Who is behind the exchange has the right to release. -/
def holds : Option Stop → Option Unit
  | none | some .exchange => none
  | some _ => some ()

def Main.inStop : Main → Option Stop
  | .stop s => some s
  | _ => none

def Rx.inStop : Rx → Option Stop
  | .stop s => some s
  | _ => none

def Tx.inStop : Tx → Option Stop
  | .stop s => some s
  | _ => none

/-- Where each thread is in `stop`. -/
def State.stops (x : State) : Thread → Option Stop
  | .main => x.main.inStop
  | .rx => x.rx.inStop
  | .tx => x.tx.inStop

/-- What `stop` releases, and how often it has. -/
structure Resources where
  running : Bool
  sock : Bool
  shut : Bool
  shutdowns : ℕ
  closes : ℕ
  cleanups : ℕ

def State.resources (x : State) : Resources :=
  ⟨x.running, x.sock, x.shut, x.shutdowns, x.closes, x.cleanups⟩

/-- What is left when the right to release is there. -/
def expected : Place → Resources
  | .on .pending => ⟨true, true, false, 0, 0, 0⟩
  | .held _ (some .closesocket) => ⟨false, true, true, 1, 0, 0⟩
  | .held _ (some .forget) => ⟨false, true, true, 1, 1, 0⟩
  | .held _ (some .cleanup) => ⟨false, false, true, 1, 1, 0⟩
  | .held .. => ⟨false, true, false, 0, 0, 0⟩
  | .on .released => ⟨false, false, true, 1, 1, 1⟩

/-- The right to release is in one place, and what is left goes with it. -/
structure Right (place : Unit → Place) (x : State) : Prop where
  agrees : Agrees holds place x.stops
  resources : x.resources = expected (place ())

variable {x y : State} {t : Thread} {s : Stop} {place : Unit → Place}

theorem Right.held (h : Right place x) (hs : x.stops t = some s) (hown : holds (some s) = some ()) :
    x.resources = expected (.held t (some s)) := by
  rw [h.resources, h.agrees.place_eq (hs ▸ hown), hs]

/-- A thread's step in `stop` takes the right, goes on with it or puts it away, and what is left
is as expected again. -/
theorem Right.stop (hright : Right place x) (hs : x.stops t = some s) : ∃ place : Unit → Place,
    Agrees holds place (Function.update x.stops t (stepStop x s).1) ∧
      (stepStop x s).2.resources = expected (place ()) := by
  have h := hright.agrees
  have hres := hright.resources
  -- behind the exchange the thread has the right already
  have hgo {next : Option Stop} {z : State} (hown : holds (some s) = some ())
      (hnext : holds next = some ()) (hz : z.resources = expected (.held t next)) :
      ∃ place : Unit → Place, Agrees holds place (Function.update x.stops t next) ∧
        z.resources = expected (place ()) := by
    refine ⟨_, h.hold (.inl (hs ▸ hown)) hnext, ?_⟩
    rw [hz, Function.update_self]
  have hheld := hright.held hs
  cases s with
  | exchange =>
    have hnone : holds (x.stops t) = none := by rw [hs]; rfl
    cases hr : x.running with
    | false =>
      rw [stepStop, hr]
      exact ⟨place, h.pass hnone rfl, hres⟩
    | true =>
      have hpending : place () = .on .pending := by
        have hrunning := congrArg Resources.running hres
        rw [State.resources, hr] at hrunning
        revert hrunning
        cases place () with
        | on shelf => cases shelf <;> simp [expected]
        | held u p => cases p with
          | none => simp [expected]
          | some p => cases p <;> simp [expected]
      rw [stepStop, hr]
      refine ⟨_, h.hold (.inr ⟨hnone, .pending, hpending⟩) rfl, ?_⟩
      rw [Function.update_self]
      rw [hpending] at hres
      simp only [State.resources, expected, Resources.mk.injEq] at hres ⊢
      simp [hres]
  | test =>
    have hsock := congrArg Resources.sock (hheld rfl)
    change x.sock = true at hsock
    rw [stepStop, hsock]
    exact hgo rfl rfl (hheld rfl)
  | shutdown =>
    have hx := hheld rfl
    simp only [State.resources, expected, Resources.mk.injEq] at hx
    refine hgo rfl rfl ?_
    simp [stepStop, State.resources, expected, hx]
  | closesocket =>
    have hx := hheld rfl
    simp only [State.resources, expected, Resources.mk.injEq] at hx
    refine hgo rfl rfl ?_
    simp [stepStop, State.resources, expected, hx]
  | forget =>
    have hx := hheld rfl
    simp only [State.resources, expected, Resources.mk.injEq] at hx
    refine hgo rfl rfl ?_
    simp [stepStop, State.resources, expected, hx]
  | cleanup =>
    have hx := hheld rfl
    simp only [State.resources, expected, Resources.mk.injEq] at hx
    refine ⟨_, h.put (by rw [hs]; rfl) rfl .released, ?_⟩
    rw [Function.update_self]
    simp [stepStop, State.resources, expected, hx]

/-- How far `main` has got before `run`. -/
def Setup (x : State) : Prop :=
  x.running = false ∧ x.shut = false ∧ x.rx = .unborn ∧ x.tx = .unborn ∧ x.shutdowns = 0 ∧
    match x.main with
    | .startup => x.startups = 0 ∧ x.sockets = 0 ∧ x.closes = 0 ∧ x.cleanups = 0
    | .socket => x.startups = 1 ∧ x.sockets = 0 ∧ x.closes = 0 ∧ x.cleanups = 0
    | .inetPton | .connect | .setRunning => x.sock = true ∧
        x.startups = 1 ∧ x.sockets = 1 ∧ x.closes = 0 ∧ x.cleanups = 0
    | .failClose => x.startups = 1 ∧ x.sockets = 1 ∧ x.closes = 0 ∧ x.cleanups = 0
    | .failCleanup => x.startups = 1 ∧ x.sockets ≤ 1 ∧ x.closes = x.sockets ∧ x.cleanups = 0
    | .exit code => code = 1 ∧
        x.startups ≤ 1 ∧ x.sockets ≤ 1 ∧ x.closes = x.sockets ∧ x.cleanups = x.startups
    | _ => False

inductive Status
  | unborn
  | alive
  | done
  deriving DecidableEq

def Rx.status : Rx → Status
  | .unborn => .unborn
  | .done => .done
  | _ => .alive

def Tx.status : Tx → Status
  | .unborn => .unborn
  | .done => .done
  | _ => .alive

/-- What `main` knows of its threads. -/
def knows : Main → Status → Status → Prop
  | .startRx, rx, tx => rx = .unborn ∧ tx = .unborn
  | .startTx, rx, tx => rx ≠ .unborn ∧ tx = .unborn
  | .joinTx, rx, tx => rx ≠ .unborn ∧ tx ≠ .unborn
  | .joinRx, rx, tx => rx ≠ .unborn ∧ tx = .done
  | .stop _, rx, tx => rx = .done ∧ tx = .done
  | .exit code, rx, tx => code = 0 ∧ rx = .done ∧ tx = .done
  | _, _, _ => False

/-- Where the threads of `run` are. -/
structure Control (x : State) : Prop where
  created : x.startups = 1 ∧ x.sockets = 1
  main : knows x.main x.rx.status x.tx.status
  rx_done : x.rx.status = .done → x.running = false
  tx_done : x.tx.status = .done → x.running = false

/-- `run` has been called. -/
def Going (x : State) : Prop := (∃ place, Right place x) ∧ Control x

def Inv (x : State) : Prop := Setup x ∨ Going x

theorem inv_init : Inv init := .inl ⟨rfl, rfl, rfl, rfl, rfl, rfl, rfl, rfl, rfl⟩

/-- A step of `main` before `run`, and the one into it. -/
theorem Setup.main (h : Setup x) {ok : Bool} (hstep : stepMain x ok = some y) : Inv y := by
  obtain ⟨hr, hshut, hrx, htx, hdowns, hmain⟩ := h
  unfold stepMain at hstep
  cases hm : x.main with
  | startup | socket | inetPton | connect =>
    rw [hm] at hstep hmain
    obtain rfl := Option.some.inj hstep
    cases ok <;> exact .inl (by simp [Setup, *])
  | failClose | failCleanup =>
    rw [hm] at hstep hmain
    obtain rfl := Option.some.inj hstep
    exact .inl (by simp [Setup, *])
  | setRunning =>
    rw [hm] at hstep hmain
    obtain rfl := Option.some.inj hstep
    refine .inr ⟨⟨fun _ => .on .pending, ?_, ?_⟩, ⟨hmain.2.1, hmain.2.2.1⟩, ?_, ?_, ?_⟩
    · intro _ t p
      refine ⟨nofun, ?_⟩
      rintro ⟨rfl, hp⟩
      cases t <;> simp [State.stops, Main.inStop, Rx.inStop, Tx.inStop, hrx, htx, holds] at hp
    · simp [State.resources, expected, hmain, hshut, hdowns]
    · exact ⟨congrArg Rx.status hrx, congrArg Tx.status htx⟩
    · intro hdone
      rw [hrx] at hdone
      contradiction
    · intro hdone
      rw [htx] at hdone
      contradiction
  | startRx | startTx | joinTx | joinRx | stop s =>
    rw [hm] at hmain
    contradiction
  | exit code =>
    rw [hm] at hstep
    contradiction

theorem Setup.step (h : Setup x) {a : Act} (hstep : step x a = some y) : Inv y := by
  obtain ⟨thread, ok⟩ := a
  cases thread with
  | main => exact h.main hstep
  | rx =>
    have hnone : stepRx x ok = none := by rw [stepRx, h.2.2.1]
    exact nomatch hnone.symm.trans hstep
  | tx =>
    have hnone : stepTx x ok = none := by rw [stepTx, h.2.2.2.1]
    exact nomatch hnone.symm.trans hstep

/-! ### The threads of `run` -/

theorem stops_main (m : Main) :
    ({ x with main := m } : State).stops = Function.update x.stops .main m.inStop := by
  funext t
  cases t <;> rfl

theorem stops_rx (r : Rx) :
    ({ x with rx := r } : State).stops = Function.update x.stops .rx r.inStop := by
  funext t
  cases t <;> rfl

theorem stops_tx (r : Tx) :
    ({ x with tx := r } : State).stops = Function.update x.stops .tx r.inStop := by
  funext t
  cases t <;> rfl

/-- `stop` changes what it releases and nothing else. -/
theorem stepStop_frame (x : State) (s : Stop) : (stepStop x s).2.main = x.main ∧
    (stepStop x s).2.rx = x.rx ∧ (stepStop x s).2.tx = x.tx ∧
      (stepStop x s).2.startups = x.startups ∧ (stepStop x s).2.sockets = x.sockets := by
  cases s with
  | exchange =>
    cases hr : x.running <;> simp [stepStop, hr]
  | _ => exact ⟨rfl, rfl, rfl, rfl, rfl⟩

theorem stepStop_stops (x : State) (s : Stop) : (stepStop x s).2.stops = x.stops := by
  obtain ⟨hmain, hrx, htx, -⟩ := stepStop_frame x s
  funext t
  cases t <;> simp [State.stops, hmain, hrx, htx]

/-- `running_` is not set again, and it is clear when `stop` returns. -/
theorem stepStop_running (h : Right place x) (hs : x.stops t = some s) :
    (x.running = false → (stepStop x s).2.running = false) ∧
      ((stepStop x s).1 = none → (stepStop x s).2.running = false) := by
  cases s with
  | exchange =>
    cases hr : x.running <;> simp [stepStop, hr]
  | cleanup =>
    have hr := congrArg Resources.running (h.held hs rfl)
    exact ⟨fun _ => hr, fun _ => hr⟩
  | _ => exact ⟨id, nofun⟩

/-- A thread is not in `stop`, or calls it. -/
theorem Right.pass (h : Right place x) {q : Option Stop} (ht : holds (x.stops t) = none)
    (hq : holds q = none) (hy : y.stops = Function.update x.stops t q)
    (hres : y.resources = x.resources) : Right place y :=
  ⟨hy ▸ h.agrees.pass ht hq, hres.trans h.resources⟩

theorem knows_rx {m : Main} {tx : Status} (h : knows m .alive tx) : knows m .done tx := by
  cases m <;> simp_all [knows]

theorem knows_tx {m : Main} {rx : Status} (h : knows m rx .alive) : knows m rx .done := by
  cases m <;> simp_all [knows]

/-- What a step of `stop` keeps, whichever thread takes it. -/
structure Stopped (x : State) (t : Thread) (s : Stop) : Prop where
  main : (stepStop x s).2.main = x.main
  rx : (stepStop x s).2.rx = x.rx
  tx : (stepStop x s).2.tx = x.tx
  created : (stepStop x s).2.startups = x.startups ∧ (stepStop x s).2.sockets = x.sockets
  keep : x.running = false → (stepStop x s).2.running = false
  ended : (stepStop x s).1 = none → (stepStop x s).2.running = false
  right : ∃ place, Agrees holds place (Function.update (stepStop x s).2.stops t (stepStop x s).1) ∧
    (stepStop x s).2.resources = expected (place ())

theorem Right.stopped (h : Right place x) (hs : x.stops t = some s) : Stopped x t s := by
  obtain ⟨hmain, hrx, htx, hcreated⟩ := stepStop_frame x s
  obtain ⟨hkeep, hended⟩ := stepStop_running h hs
  refine ⟨hmain, hrx, htx, hcreated, hkeep, hended, ?_⟩
  rw [stepStop_stops]
  exact h.stop hs

theorem Rx.inStop_after (next : Option Stop) : (Rx.after next).inStop = next := by
  cases next <;> rfl

theorem Tx.inStop_after (next : Option Stop) : (Tx.after next).inStop = next := by
  cases next <;> rfl

theorem Main.inStop_after (next : Option Stop) : (Main.after next).inStop = next := by
  cases next <;> rfl

/-- A thread of `run` goes on, or ends when `running_` is clear. -/
theorem Control.go (h : Control x) (hmain : y.main = x.main)
    (hcreated : y.startups = x.startups ∧ y.sockets = x.sockets)
    (hkeep : x.running = false → y.running = false)
    (hrx : y.rx.status = x.rx.status ∨
      x.rx.status = .alive ∧ y.rx.status = .done ∧ y.running = false)
    (htx : y.tx.status = x.tx.status ∨
      x.tx.status = .alive ∧ y.tx.status = .done ∧ y.running = false) : Control y := by
  refine ⟨⟨hcreated.1.trans h.created.1, hcreated.2.trans h.created.2⟩, ?_, ?_, ?_⟩
  · have hknows := h.main
    rw [hmain]
    rcases hrx with hrx | ⟨hrx, hrx', -⟩ <;> rcases htx with htx | ⟨htx, htx', -⟩
    · rwa [hrx, htx]
    · rw [hrx, htx']
      exact knows_tx (htx ▸ hknows)
    · rw [hrx', htx]
      exact knows_rx (hrx ▸ hknows)
    · rw [hrx, htx] at hknows
      rw [hrx', htx']
      exact knows_rx (knows_tx hknows)
  · intro hd
    rcases hrx with hrx | ⟨-, -, hr⟩
    · exact hkeep (h.rx_done (hrx ▸ hd))
    · exact hr
  · intro hd
    rcases htx with htx | ⟨-, -, hr⟩
    · exact hkeep (h.tx_done (htx ▸ hd))
    · exact hr

theorem Control.rx (h : Control x) (hright : Right place x) {data : Bool}
    (hstep : stepRx x data = some y) : Going y := by
  have hmove {r : Rx} (hr : holds x.rx.inStop = none) (hq : holds r.inStop = none)
      (hs : r.status = x.rx.status) :
      Going { x with rx := r } :=
    ⟨⟨place, hright.pass (t := .rx) hr hq (stops_rx r) rfl⟩,
      h.go rfl ⟨rfl, rfl⟩ id (.inl hs) (.inl rfl)⟩
  unfold stepRx at hstep
  cases hr : x.rx with
  | unborn | done =>
    rw [hr] at hstep
    contradiction
  | test =>
    rw [hr] at hstep
    obtain rfl := Option.some.inj hstep
    split_ifs <;> exact hmove (by rw [hr]; rfl) rfl (by rw [hr]; rfl)
  | recv =>
    rw [hr] at hstep
    cases data with
    | true =>
      obtain ⟨-, hy⟩ := Option.ite_none_left_eq_some.mp hstep
      obtain rfl := Option.some.inj hy
      exact hmove (by rw [hr]; rfl) rfl (by rw [hr]; rfl)
    | false =>
      obtain rfl := Option.some.inj hstep
      exact hmove (by rw [hr]; rfl) rfl (by rw [hr]; rfl)
  | display =>
    rw [hr] at hstep
    obtain rfl := Option.some.inj hstep
    exact hmove (by rw [hr]; rfl) rfl (by rw [hr]; rfl)
  | stop s =>
    rw [hr] at hstep
    obtain rfl := Option.some.inj hstep
    obtain ⟨hmain, -, htx, hcreated, hkeep, hended, place', hagrees, hres⟩ :=
      hright.stopped (t := .rx) (congrArg Rx.inStop hr)
    refine ⟨⟨place', ?_, hres⟩, h.go hmain hcreated hkeep ?_ (.inl (congrArg _ htx))⟩
    · rw [stops_rx, Rx.inStop_after]
      exact hagrees
    · rw [hr]
      cases hn : (stepStop x s).1 with
      | some next => exact .inl rfl
      | none => exact .inr ⟨rfl, rfl, hended hn⟩

theorem Control.tx (h : Control x) (hright : Right place x) {more : Bool}
    (hstep : stepTx x more = some y) : Going y := by
  have hmove {r : Tx} (hr : holds x.tx.inStop = none) (hq : holds r.inStop = none)
      (hs : r.status = x.tx.status) :
      Going { x with tx := r } :=
    ⟨⟨place, hright.pass (t := .tx) hr hq (stops_tx r) rfl⟩,
      h.go rfl ⟨rfl, rfl⟩ id (.inl rfl) (.inl hs)⟩
  unfold stepTx at hstep
  cases hr : x.tx with
  | unborn | done =>
    rw [hr] at hstep
    contradiction
  | test | getline | send =>
    rw [hr] at hstep
    obtain rfl := Option.some.inj hstep
    split_ifs <;> exact hmove (by rw [hr]; rfl) rfl (by rw [hr]; rfl)
  | stop s =>
    rw [hr] at hstep
    obtain rfl := Option.some.inj hstep
    obtain ⟨hmain, hrx, -, hcreated, hkeep, hended, place', hagrees, hres⟩ :=
      hright.stopped (t := .tx) (congrArg Tx.inStop hr)
    refine ⟨⟨place', ?_, hres⟩, h.go hmain hcreated hkeep (.inl (congrArg _ hrx)) ?_⟩
    · rw [stops_tx, Tx.inStop_after]
      exact hagrees
    · rw [hr]
      cases hn : (stepStop x s).1 with
      | some next => exact .inl rfl
      | none => exact .inr ⟨rfl, rfl, hended hn⟩

theorem rx_unborn {r : Rx} (h : r.status = .unborn) : r = .unborn := by
  cases r <;> first | rfl | contradiction

theorem tx_unborn {r : Tx} (h : r.status = .unborn) : r = .unborn := by
  cases r <;> first | rfl | contradiction

theorem Control.main_step (h : Control x) (hright : Right place x) {ok : Bool}
    (hstep : stepMain x ok = some y) : Going y := by
  have hknows := h.main
  unfold stepMain at hstep
  cases hm : x.main with
  | startup | socket | inetPton | connect | failClose | failCleanup | setRunning =>
    rw [hm] at hknows
    exact hknows.elim
  | startRx =>
    rw [hm] at hstep hknows
    obtain rfl := Option.some.inj hstep
    have hunborn := rx_unborn hknows.1
    have hstops : ({ x with rx := .test, main := .startTx } : State).stops =
        Function.update x.stops .main none := by
      funext t
      cases t <;> simp [State.stops, Rx.inStop, Main.inStop, hunborn]
    refine ⟨⟨place, hright.pass (t := .main) (by simp [State.stops, hm, Main.inStop, holds]) rfl
      hstops rfl⟩, h.created, ⟨nofun, hknows.2⟩, nofun, h.tx_done⟩
  | startTx =>
    rw [hm] at hstep hknows
    obtain rfl := Option.some.inj hstep
    have hunborn := tx_unborn hknows.2
    have hstops : ({ x with tx := .test, main := .joinTx } : State).stops =
        Function.update x.stops .main none := by
      funext t
      cases t <;> simp [State.stops, Tx.inStop, Main.inStop, hunborn]
    refine ⟨⟨place, hright.pass (t := .main) (by simp [State.stops, hm, Main.inStop, holds]) rfl
      hstops rfl⟩, h.created, ⟨hknows.1, nofun⟩, h.rx_done, nofun⟩
  | joinTx =>
    rw [hm] at hstep hknows
    obtain ⟨hdone, hy⟩ := Option.ite_none_right_eq_some.mp hstep
    obtain rfl := Option.some.inj hy
    refine ⟨⟨place, hright.pass (t := .main) (by simp [State.stops, hm, Main.inStop, holds]) rfl
      (stops_main .joinRx) rfl⟩, h.created, ⟨hknows.1, by rw [hdone]; rfl⟩, h.rx_done, h.tx_done⟩
  | joinRx =>
    rw [hm] at hstep hknows
    obtain ⟨hdone, hy⟩ := Option.ite_none_right_eq_some.mp hstep
    obtain rfl := Option.some.inj hy
    refine ⟨⟨place, hright.pass (t := .main) (by simp [State.stops, hm, Main.inStop, holds]) rfl
      (stops_main (.stop .exchange)) rfl⟩, h.created, ⟨by rw [hdone]; rfl, hknows.2⟩, h.rx_done,
      h.tx_done⟩
  | stop s =>
    rw [hm] at hstep hknows
    obtain rfl := Option.some.inj hstep
    obtain ⟨-, hrx, htx, hcreated, hkeep, -, place', hagrees, hres⟩ :=
      hright.stopped (t := .main) (congrArg Main.inStop hm)
    refine ⟨⟨place', ?_, hres⟩, ?_, ?_, ?_, ?_⟩
    · rw [stops_main, Main.inStop_after]
      exact hagrees
    · exact ⟨hcreated.1.trans h.created.1, hcreated.2.trans h.created.2⟩
    · simp only [hrx, htx]
      cases (stepStop x s).1 with
      | some next => exact hknows
      | none => exact ⟨rfl, hknows⟩
    · exact fun hd => hkeep (h.rx_done (hrx ▸ hd))
    · exact fun hd => hkeep (h.tx_done (htx ▸ hd))
  | exit code =>
    rw [hm] at hstep
    contradiction

theorem Going.step (h : Going x) {a : Act} (hstep : ClientRun.step x a = some y) : Going y := by
  obtain ⟨⟨place, hright⟩, hc⟩ := h
  obtain ⟨thread, ok⟩ := a
  cases thread with
  | main => exact hc.main_step hright hstep
  | rx => exact hc.rx hright hstep
  | tx => exact hc.tx hright hstep

theorem Inv.step (h : Inv x) {a : Act} (hstep : ClientRun.step x a = some y) : Inv y := by
  rcases h with h | h
  · exact h.step hstep
  · exact .inr (h.step hstep)

theorem inv_run {acts : List Act} (h : Exec step (fun _ _ => True) init acts x) : Inv x :=
  h.invariant (fun _ _ _ hs _ hstep => hs.step hstep) inv_init

/-! ### What has been released -/

theorem expected_le (p : Place) : (expected p).shutdowns ≤ 1 ∧ (expected p).closes ≤ 1 ∧
    (expected p).cleanups ≤ 1 := by
  cases p with
  | on shelf => cases shelf <;> simp [expected]
  | held t p =>
    cases p with
    | none => simp [expected]
    | some s => cases s <;> simp [expected]

theorem Setup.counts (h : Setup x) : x.closes ≤ x.sockets ∧ x.sockets ≤ 1 ∧
    x.cleanups ≤ x.startups ∧ x.startups ≤ 1 ∧ x.shutdowns ≤ x.sockets := by
  obtain ⟨-, -, -, -, hdowns, hmain⟩ := h
  cases hm : x.main <;> rw [hm] at hmain <;> simp only at hmain <;> omega

theorem rx_done {r : Rx} (h : r.status = .done) : r = .done := by
  cases r <;> first | rfl | contradiction

theorem tx_done {r : Tx} (h : r.status = .done) : r = .done := by
  cases r <;> first | rfl | contradiction

/-- When `main` has returned, nobody is in `stop` any more. -/
theorem Right.released (h : Right place x) (hc : Control x) {code : ℕ} (hm : x.main = .exit code) :
    place () = .on .released := by
  have hknows := hc.main
  rw [hm] at hknows
  have hrx := rx_done hknows.2.1
  have htx := tx_done hknows.2.2
  cases hp : place () with
  | on shelf =>
    cases shelf with
    | pending =>
      have hrunning := congrArg Resources.running h.resources
      rw [hp] at hrunning
      exact absurd ((hc.rx_done hknows.2.1).symm.trans hrunning) (by decide)
    | released => rfl
  | held t p =>
    obtain ⟨rfl, hholds⟩ := (h.agrees () t p).mp hp
    cases t <;> simp [State.stops, hm, hrx, htx, Main.inStop, Rx.inStop, Tx.inStop, holds] at hholds

/-- Whatever fails and however the three threads interleave, the socket is shut down and closed
and WinSock cleaned up at most once, and only if there is one; and when `main` returns, both
threads have ended, and what has been created has been released. -/
theorem released_once {acts : List Act} (h : Exec step (fun _ _ => True) init acts x) :
    x.closes ≤ x.sockets ∧ x.sockets ≤ 1 ∧ x.cleanups ≤ x.startups ∧ x.startups ≤ 1 ∧
      x.shutdowns ≤ x.sockets ∧ ∀ code, x.main = .exit code → x.closes = x.sockets ∧
        x.cleanups = x.startups ∧ x.running = false ∧ (x.rx = .unborn ∨ x.rx = .done) ∧
          (x.tx = .unborn ∨ x.tx = .done) := by
  rcases inv_run h with hsetup | ⟨⟨place, hright⟩, hc⟩
  · obtain ⟨h1, h2, h3, h4, h5⟩ := hsetup.counts
    refine ⟨h1, h2, h3, h4, h5, ?_⟩
    intro code hm
    obtain ⟨hr, -, hrx, htx, -, hmain⟩ := hsetup
    rw [hm] at hmain
    exact ⟨hmain.2.2.2.1, hmain.2.2.2.2, hr, .inl hrx, .inl htx⟩
  · obtain ⟨hdowns, hcloses, hcleanups⟩ := expected_le (place ())
    rw [← hright.resources] at hdowns hcloses hcleanups
    obtain ⟨hstartups, hsockets⟩ := hc.created
    refine ⟨hsockets ▸ hcloses, hsockets.le, hstartups ▸ hcleanups, hstartups.le,
      hsockets ▸ hdowns, ?_⟩
    intro code hm
    have hall := hright.resources
    rw [hright.released hc hm] at hall
    simp only [State.resources, expected, Resources.mk.injEq] at hall
    have hknows := hc.main
    rw [hm] at hknows
    exact ⟨hall.2.2.2.2.1.trans hsockets.symm, hall.2.2.2.2.2.trans hstartups.symm, hall.1,
      .inr (rx_done hknows.2.1), .inr (tx_done hknows.2.2)⟩

/-- The client connects, and the server closes the connection while a line is awaited. -/
def hangUp : List Act :=
  List.replicate 7 ⟨.main, true⟩ ++ [⟨.rx, true⟩, ⟨.tx, true⟩, ⟨.rx, false⟩, ⟨.rx, true⟩]

/-- The receiver releases everything; the sender ends with the next line. -/
def lastLine : List Act :=
  List.replicate 5 ⟨.rx, true⟩ ++ List.replicate 4 ⟨.tx, true⟩ ++ List.replicate 3 ⟨.main, true⟩

theorem released_once_hungUp : ∃ x : State, x.main = .exit 0 ∧ x.closes = x.sockets ∧
    x.cleanups = x.startups := by
  obtain ⟨x, hx, hm⟩ : ∃ x, Exec step (fun _ _ => True) init (hangUp ++ lastLine) x ∧
      x.main = .exit 0 := Exec.exists_of_runIf (by decide +kernel)
  obtain ⟨hcloses, hcleanups, -⟩ := (released_once hx).2.2.2.2.2 0 hm
  exact ⟨x, hm, hcloses, hcleanups⟩

/-! ### The end -/

/-- The steps that are left in `stop` when `running_` is clear. -/
def Stop.rank : Stop → ℕ
  | .exchange | .cleanup => 1
  | .forget => 2
  | .closesocket => 3
  | .shutdown => 4
  | .test => 5

def Main.rank : Main → ℕ
  | .startRx => 9
  | .startTx => 6
  | .joinTx => 3
  | .joinRx => 2
  | .stop s => s.rank
  | _ => 0

def Rx.rank : Rx → ℕ
  | .unborn | .done => 0
  | .test => 2
  | .recv => 4
  | .display => 3
  | .stop s => s.rank

def Tx.rank : Tx → ℕ
  | .unborn | .done => 0
  | .test => 2
  | .getline => 4
  | .send => 3
  | .stop s => s.rank

def State.toDo (x : State) : ℕ := x.main.rank + x.rx.rank + x.tx.rank

def rankOf : Option Stop → ℕ
  | some s => s.rank
  | none => 0

/-- With `running_` clear, every step of `stop` is one step less. -/
theorem stepStop_rank (s : Stop) (hr : x.running = false) : rankOf (stepStop x s).1 < s.rank := by
  cases s with
  | exchange =>
    rw [stepStop, hr]
    exact Nat.zero_lt_one
  | test =>
    rw [stepStop]
    cases x.sock <;> simp [rankOf, Stop.rank]
  | _ => simp [stepStop, rankOf, Stop.rank]

theorem Main.rank_after (next : Option Stop) : (Main.after next).rank = rankOf next := by
  cases next <;> rfl

theorem Rx.rank_after (next : Option Stop) : (Rx.after next).rank = rankOf next := by
  cases next <;> rfl

theorem Tx.rank_after (next : Option Stop) : (Tx.after next).rank = rankOf next := by
  cases next <;> rfl

theorem stepStop_clear (s : Stop) (hr : x.running = false) : (stepStop x s).2.running = false := by
  cases s with
  | exchange =>
    rw [stepStop, hr]
    exact hr
  | _ => exact hr

theorem toDo_main (hr : x.running = false) (hc : Control x) {ok : Bool}
    (hstep : stepMain x ok = some y) : y.running = false ∧ y.toDo < x.toDo := by
  have hknows := hc.main
  unfold stepMain at hstep
  cases hm : x.main with
  | startup | socket | inetPton | connect | failClose | failCleanup | setRunning =>
    rw [hm] at hknows
    exact hknows.elim
  | startRx =>
    rw [hm] at hstep hknows
    obtain rfl := Option.some.inj hstep
    refine ⟨hr, ?_⟩
    simp [State.toDo, hm, rx_unborn hknows.1, Main.rank, Rx.rank]
  | startTx =>
    rw [hm] at hstep hknows
    obtain rfl := Option.some.inj hstep
    refine ⟨hr, ?_⟩
    simp only [State.toDo, hm, tx_unborn hknows.2, Main.rank, Tx.rank]
    omega
  | joinTx | joinRx =>
    rw [hm] at hstep
    obtain ⟨-, hy⟩ := Option.ite_none_right_eq_some.mp hstep
    obtain rfl := Option.some.inj hy
    refine ⟨hr, ?_⟩
    simp only [State.toDo, hm, Main.rank, Stop.rank]
    omega
  | stop s =>
    rw [hm] at hstep
    obtain rfl := Option.some.inj hstep
    obtain ⟨-, hrx, htx, -⟩ := stepStop_frame x s
    have hrank := stepStop_rank s hr
    refine ⟨stepStop_clear s hr, ?_⟩
    have hs : (Main.stop s).rank = s.rank := rfl
    simp only [State.toDo, hm, hrx, htx, Main.rank_after]
    omega
  | exit code =>
    rw [hm] at hstep
    contradiction

theorem toDo_rx (hr : x.running = false) {data : Bool} (hstep : stepRx x data = some y) :
    y.running = false ∧ y.toDo < x.toDo := by
  unfold stepRx at hstep
  cases hx : x.rx with
  | unborn | done =>
    rw [hx] at hstep
    contradiction
  | test =>
    rw [hx] at hstep
    obtain rfl := Option.some.inj hstep
    refine ⟨hr, ?_⟩
    simp [State.toDo, hx, hr, Rx.rank, Stop.rank]
  | recv =>
    rw [hx] at hstep
    cases data with
    | true =>
      obtain ⟨-, hy⟩ := Option.ite_none_left_eq_some.mp hstep
      obtain rfl := Option.some.inj hy
      refine ⟨hr, ?_⟩
      simp [State.toDo, hx, Rx.rank]
    | false =>
      obtain rfl := Option.some.inj hstep
      refine ⟨hr, ?_⟩
      simp [State.toDo, hx, Rx.rank, Stop.rank]
  | display =>
    rw [hx] at hstep
    obtain rfl := Option.some.inj hstep
    refine ⟨hr, ?_⟩
    simp [State.toDo, hx, Rx.rank]
  | stop s =>
    rw [hx] at hstep
    obtain rfl := Option.some.inj hstep
    obtain ⟨hmain, -, htx, -⟩ := stepStop_frame x s
    have hrank := stepStop_rank s hr
    refine ⟨stepStop_clear s hr, ?_⟩
    have hs : (Rx.stop s).rank = s.rank := rfl
    simp only [State.toDo, hx, hmain, htx, Rx.rank_after]
    omega

theorem toDo_tx (hr : x.running = false) {more : Bool} (hstep : stepTx x more = some y) :
    y.running = false ∧ y.toDo < x.toDo := by
  unfold stepTx at hstep
  cases hx : x.tx with
  | unborn | done =>
    rw [hx] at hstep
    contradiction
  | test =>
    rw [hx] at hstep
    obtain rfl := Option.some.inj hstep
    refine ⟨hr, ?_⟩
    simp [State.toDo, hx, hr, Tx.rank, Stop.rank]
  | getline | send =>
    rw [hx] at hstep
    obtain rfl := Option.some.inj hstep
    refine ⟨hr, ?_⟩
    cases more <;> simp [State.toDo, hx, Tx.rank, Stop.rank]
  | stop s =>
    rw [hx] at hstep
    obtain rfl := Option.some.inj hstep
    obtain ⟨hmain, hrx, -⟩ := stepStop_frame x s
    have hrank := stepStop_rank s hr
    refine ⟨stepStop_clear s hr, ?_⟩
    have hs : (Tx.stop s).rank = s.rank := rfl
    simp only [State.toDo, hx, hmain, hrx, Tx.rank_after]
    omega

/-- Once `running_` is clear, every step leaves one less to do. -/
theorem toDo_step (hc : Control x) (hr : x.running = false) {a : Act} (hstep : step x a = some y) :
    y.running = false ∧ y.toDo < x.toDo := by
  obtain ⟨thread, ok⟩ := a
  cases thread with
  | main => exact toDo_main hr hc hstep
  | rx => exact toDo_rx hr hstep
  | tx => exact toDo_tx hr hstep

theorem Stop.rank_le (s : Stop) : s.rank ≤ 5 := by
  cases s <;> decide

theorem Rx.rank_le (r : Rx) : r.rank ≤ 5 := by
  cases r with
  | stop s => exact s.rank_le
  | _ => exact Nat.le_of_ble_eq_true rfl

theorem Tx.rank_le (r : Tx) : r.rank ≤ 5 := by
  cases r with
  | stop s => exact s.rank_le
  | _ => exact Nat.le_of_ble_eq_true rfl

theorem toDo_le (hc : Control x) : x.toDo ≤ 13 := by
  have hknows := hc.main
  have hrx := x.rx.rank_le
  have htx := x.tx.rank_le
  rw [State.toDo]
  cases hm : x.main with
  | startup | socket | inetPton | connect | failClose | failCleanup | setRunning =>
    rw [hm] at hknows
    exact hknows.elim
  | startRx =>
    rw [hm] at hknows
    rw [rx_unborn hknows.1, tx_unborn hknows.2]
    decide
  | startTx =>
    rw [hm] at hknows
    rw [tx_unborn hknows.2]
    simp only [Main.rank, Tx.rank]
    omega
  | joinTx | joinRx | exit code =>
    simp only [Main.rank]
    omega
  | stop s =>
    rw [hm] at hknows
    rw [rx_done hknows.1, tx_done hknows.2]
    exact s.rank_le.trans (by decide)

/-- Whoever is in `stop` can go on. -/
theorem moves_stop (hs : x.stops t = some s) :
    ∃ a : Act, ¬ x.Blocked a.thread ∧ (step x a).isSome = true := by
  refine ⟨⟨t, true⟩, ?_, ?_⟩
  · cases t with
    | main => exact id
    | rx =>
      rintro ⟨hrx, -⟩
      simp [State.stops, hrx, Rx.inStop] at hs
    | tx =>
      rintro (htx | ⟨htx, -⟩) <;> simp [State.stops, htx, Tx.inStop] at hs
  · cases t with
    | main =>
      cases hm : x.main <;> simp [State.stops, hm, Main.inStop] at hs
      simp [step, stepMain, hm]
    | rx =>
      cases hm : x.rx <;> simp [State.stops, hm, Rx.inStop] at hs
      simp [step, stepRx, hm]
    | tx =>
      cases hm : x.tx <;> simp [State.stops, hm, Tx.inStop] at hs
      simp [step, stepTx, hm]

/-- As long as the connection is not shut down, somebody is about to. -/
theorem Right.moves (h : Right place x) (hr : x.running = false) (hshut : x.shut = false) :
    ∃ a : Act, ¬ x.Blocked a.thread ∧ (step x a).isSome = true := by
  have hres := h.resources
  cases hp : place () with
  | on shelf =>
    rw [hp] at hres
    cases shelf <;> simp_all [State.resources, expected]
  | held t p =>
    obtain ⟨hpc, hholds⟩ := (h.agrees () t p).mp hp
    cases p with
    | none => contradiction
    | some s => exact moves_stop hpc

/-- Only the sender may wait for something that need not come: a line. -/
theorem progress (h : Right place x) (hc : Control x) (hr : x.running = false) :
    (∃ code, x.main = .exit code) ∨ x.tx = .getline ∨
      ∃ a : Act, ¬ x.Blocked a.thread ∧ (step x a).isSome = true := by
  have hknows := hc.main
  have hmain (hsome : (stepMain x true).isSome = true) :
      ∃ a : Act, ¬ x.Blocked a.thread ∧ (step x a).isSome = true := ⟨⟨.main, true⟩, id, hsome⟩
  cases hm : x.main with
  | startup | socket | inetPton | connect | failClose | failCleanup | setRunning =>
    rw [hm] at hknows
    exact hknows.elim
  | startRx | startTx => exact .inr (.inr (hmain (by rw [stepMain, hm]; rfl)))
  | stop s => exact .inr (.inr (moves_stop (t := .main) (s := s) (congrArg Main.inStop hm)))
  | exit code => exact .inl ⟨code, rfl⟩
  | joinTx =>
    rw [hm] at hknows
    right
    cases htx : x.tx with
    | unborn => exact absurd (congrArg Tx.status htx) hknows.2
    | getline => exact .inl rfl
    | done => exact .inr (hmain (by rw [stepMain, hm]; exact Option.isSome_of_eq_some (if_pos htx)))
    | stop s => exact .inr (moves_stop (t := .tx) (s := s) (congrArg Tx.inStop htx))
    | test =>
      exact .inr ⟨⟨.tx, true⟩, by simp [State.Blocked, htx], by simp [step, stepTx, htx]⟩
    | send =>
      right
      cases hshut : x.shut with
      | false => exact h.moves hr hshut
      | true =>
        exact ⟨⟨.tx, true⟩, by simp [State.Blocked, htx, hshut], by simp [step, stepTx, htx]⟩
  | joinRx =>
    rw [hm] at hknows
    right
    right
    cases hrx : x.rx with
    | unborn => exact absurd (congrArg Rx.status hrx) hknows.1
    | done => exact hmain (by rw [stepMain, hm]; exact Option.isSome_of_eq_some (if_pos hrx))
    | stop s => exact moves_stop (t := .rx) (s := s) (congrArg Rx.inStop hrx)
    | test | display =>
      exact ⟨⟨.rx, true⟩, by simp [State.Blocked, hrx], by simp [step, stepRx, hrx]⟩
    | recv =>
      cases hshut : x.shut with
      | false => exact h.moves hr hshut
      | true =>
        exact ⟨⟨.rx, false⟩, by simp [State.Blocked, hrx, hshut], by simp [step, stepRx, hrx]⟩

/-- Once a thread of `run` has cleared `running_`, the client takes at most 13 more steps, and
the only thing it may wait for on the way is the line the sender is asking for. -/
theorem run_ends {acts after : List Act} (hx : Exec step (fun _ _ => True) init acts x)
    (hrun : x.rx ≠ .unborn) (hr : x.running = false)
    (hy : Exec step (fun _ _ => True) x after y) :
    after.length ≤ 13 ∧ ((∃ code, y.main = .exit code) ∨ y.tx = .getline ∨
      ∃ a : Act, ¬ y.Blocked a.thread ∧ (step y a).isSome = true) := by
  have hstarted : Going x := (inv_run hx).resolve_left fun hsetup => hrun hsetup.2.2.1
  have hstep (s : State) (a : Act) (t : State) (hs : Going s ∧ s.running = false) (_ : True)
      (hstep : step s a = some t) : (Going t ∧ t.running = false) ∧ t.toDo < s.toDo := by
    obtain ⟨hr', hless⟩ := toDo_step hs.1.2 hs.2 hstep
    exact ⟨⟨hs.1.step hstep, hr'⟩, hless⟩
  have hlen := hy.length_le hstep ⟨hstarted, hr⟩
  obtain ⟨⟨⟨place, hright⟩, hc⟩, hr'⟩ :=
    hy.invariant (fun s a t hs hok ht => (hstep s a t hs hok ht).1) ⟨hstarted, hr⟩
  exact ⟨(Nat.le_add_right _ _).trans (hlen.trans (toDo_le hstarted.2)),
    progress hright hc hr'⟩

theorem run_ends_hungUp : ∃ x y : State, x.tx = .getline ∧ x.running = false ∧
    ((∃ code, y.main = .exit code) ∨ y.tx = .getline ∨
      ∃ a : Act, ¬ y.Blocked a.thread ∧ (step y a).isSome = true) := by
  obtain ⟨x, hx, htx, hrun, hr, hrest⟩ : ∃ x, Exec step (fun _ _ => True) init hangUp x ∧
      x.tx = .getline ∧ x.rx ≠ .unborn ∧ x.running = false ∧
        (Runs.runIf step (fun _ _ => True) x lastLine).any
          (fun y => decide (y.main = .exit 0)) = true := Exec.exists_of_runIf (by decide +kernel)
  obtain ⟨y, hy, -⟩ := Exec.exists_of_runIf (P := fun y : State => y.main = .exit 0) hrest
  exact ⟨x, y, htx, hr, (run_ends hx hrun hr hy).2⟩

end IocpChat.ClientRun
