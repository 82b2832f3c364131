import IocpChat.Proofs.Places

/-! Any number of workers accept and close at once, and the books are kept: what each step does
with one Session leaves the others alone, and a Session is with one worker at a time. -/

namespace IocpChat.Workers

open Runs (Exec)
open Custody (Agrees)
open Threads

variable {n cap : ℕ} {σ : Server} {s : ℕ} {w : Fin n} {place : ℕ → Place n}

structure Inv (cap : ℕ) (place : ℕ → Place n) (x : State n) : Prop where
  agrees : Agrees Worker.session place x.worker
  kept : Kept cap place x.server
  blocks : Blocks cap place x.server
  recorded : Recorded place x.server
  counted : x.Counted

variable {x y : State n}

theorem State.Counted.goto (h : x.Counted) (q : Worker)
    (hd : σ.statCurConn + q.counting + (x.server.sessionTable.keys.length : ℤ) +
        (x.worker w).uncounting =
      x.server.statCurConn + (x.worker w).counting + (σ.sessionTable.keys.length : ℤ) +
        q.uncounting) : (x.goto w σ q).Counted := by
  have hc := tally_update Worker.counting x.worker w q
  have hu := tally_update Worker.uncounting x.worker w q
  have hold : x.server.statCurConn + tally Worker.counting x.worker =
    (x.server.sessionTable.keys.length : ℤ) + tally Worker.uncounting x.worker := h
  change σ.statCurConn + tally Worker.counting (Function.update x.worker w q) =
    (σ.sessionTable.keys.length : ℤ) + tally Worker.uncounting (Function.update x.worker w q)
  omega

theorem inv_init (n cap : ℕ) : Inv (n := n) cap (fun _ => .on .pool) (init n cap) where
  agrees s w p := by
    refine ⟨nofun, ?_⟩
    rintro ⟨rfl, hp⟩
    contradiction
  kept := {
    free := fun s => by simp [init, Server.new, isPooled]
    free_nodup := List.nodup_reverse.mpr List.nodup_range
    used := nofun
    known := fun s hs => absurd rfl hs
    table := fun k s => by simp [init, Server.new, isTabled]
    closing := fun s => .inr ⟨rfl, rfl⟩
    named := nofun
    id_lt := fun s => Nat.zero_lt_one
    id_inj := fun s t hs => absurd rfl hs }
  blocks := {
    buffered := fun s => rfl
    out := nofun
    inj := nofun
    nodup := List.nodup_reverse.mpr List.nodup_range
    lt := fun b hb => by simpa [init, Server.new, BufferPool.new] using hb
    cover := fun b hlt hnot => absurd (by simpa [init, Server.new, BufferPool.new] using hlt) hnot
    all := by simp [init, Server.new, BufferPool.new, buffers, isBuffered]
    bound := le_max_left .. }
  recorded := {
    nodup := List.nodup_nil
    lt := nofun
    told := nofun
    live := nofun
    closed_nodup := List.nodup_nil
    closed := fun s k => iff_of_false nofun fun hn => nomatch hn.1 }
  counted := by simp [State.Counted, tally, init, Server.new, Worker.counting, Worker.uncounting]

theorem set_same {β : Type*} {f : Session → β} {z : Session} (h : f z = f (σ.sessions s)) (t : ℕ) :
    f ((σ.set s z).sessions t) = f (σ.sessions t) := by
  rw [Server.sessions_set]
  split_ifs with ht
  · rw [h, ht]
  · rfl

/-- A worker goes on with a Session, and this changes neither books nor buffers. -/
theorem Inv.carry (h : Inv cap place x) (hs : (x.worker w).session = some s) {q : Worker}
    (hq : q.session = some s) (ht : q.tabled = (x.worker w).tabled)
    (hc : q.closing = (x.worker w).closing) (hn : q.named = (x.worker w).named)
    (hb : q.buffered = (x.worker w).buffered) (hfree : σ.free = x.server.free)
    (htable : σ.sessionTable = x.server.sessionTable)
    (hgen : σ.sessionIdGen = x.server.sessionIdGen)
    (hpool : σ.bufferPool = x.server.bufferPool) (htrace : σ.trace = x.server.trace)
    (hsame : ∀ t, (σ.sessions t).id = (x.server.sessions t).id ∧
      (σ.sessions t).closing = (x.server.sessions t).closing ∧
        (σ.sessions t).rxBuf = (x.server.sessions t).rxBuf)
    (hcount : σ.statCurConn + q.counting + (x.worker w).uncounting =
      x.server.statCurConn + (x.worker w).counting + q.uncounting) :
    Inv cap (Function.update place s (.held w q)) (x.goto w σ q) := by
  have hplace := h.agrees.place_eq hs
  refine ⟨h.agrees.hold (.inl hs) hq, ?_, ?_, ?_, ?_⟩
  · exact h.kept.congr (update_same (by rw [hplace]; rfl)) (update_same (by rw [hplace]; exact ht))
      (update_same (by rw [hplace]; exact hc)) (update_same (by rw [hplace]; exact hn)) hfree htable
      hgen (fun t => (hsame t).1) (fun t => (hsame t).2.1)
  · exact h.blocks.congr (update_same (by rw [hplace]; exact hb)) hpool fun t => (hsame t).2.2
  · refine h.recorded.congr (update_same ?_) (update_same (by rw [hplace]; exact hc)) htrace hgen
      fun t => (hsame t).1
    rw [hplace, isUntold, isUntold, hn, hc]
  · refine h.counted.goto q ?_
    rw [htable]
    omega

theorem Inv.work (h : Inv cap place x) (hstep : stepWork x w = some y) :
    ∃ place : ℕ → Place n, Inv cap place y := by
  unfold stepWork at hstep
  cases hw : x.worker w with
  | idle =>
    rw [hw] at hstep
    contradiction
  | number s acceptSock =>
    rw [hw] at hstep
    obtain rfl := Option.some.inj hstep
    have hs : (x.worker w).session = some s := by rw [hw]; rfl
    have hplace := hw ▸ h.agrees.place_eq hs
    refine ⟨_, h.agrees.hold (.inl hs) rfl, h.kept.number hplace, ?_, h.recorded.number hplace, ?_⟩
    · exact h.blocks.congr (update_same (by rw [hplace]; rfl)) rfl
        (set_same (σ := x.server) (s := s) (f := Session.rxBuf) rfl)
    · exact h.counted.goto _ (by rw [hw]; rfl)
  | sending s =>
    rw [hw] at hstep
    obtain rfl := Option.some.inj hstep
    refine ⟨_, h.carry (s := s) (by rw [hw]; rfl) rfl (by rw [hw]; rfl) (by rw [hw]; rfl)
      (by rw [hw]; rfl) (by rw [hw]; rfl) rfl rfl rfl rfl rfl (fun t => ?_) (by rw [hw]; rfl)⟩
    have hsame {β : Type} {f : Session → β} := set_same (σ := x.server) (s := s) (f := f)
      (z := { x.server.sessions s with sending := false })
    exact ⟨hsame rfl t, hsame rfl t, hsame rfl t⟩
  | reopen s =>
    rw [hw] at hstep
    obtain rfl := Option.some.inj hstep
    have hs : (x.worker w).session = some s := by rw [hw]; rfl
    have hplace := hw ▸ h.agrees.place_eq hs
    have hclosing := h.kept.closing_eq (s := s) (by rw [hplace]; rfl)
    rw [hplace] at hclosing
    refine ⟨_, h.carry hs rfl (by rw [hw]; rfl) (by rw [hw]; rfl)
      (by rw [hw]; rfl) (by rw [hw]; rfl) rfl rfl rfl rfl rfl (fun t => ?_) (by rw [hw]; rfl)⟩
    have hsame {β : Type} {f : Session → β} := set_same (σ := x.server) (s := s) (f := f)
      (z := { x.server.sessions s with closing := false, rx := (x.server.sessions s).rx.clear })
    exact ⟨hsame rfl t, hsame (f := Session.closing) hclosing.symm t, hsame rfl t⟩
  | allocate s =>
    rw [hw] at hstep
    obtain rfl := Option.some.inj hstep
    have hs : (x.worker w).session = some s := by rw [hw]; rfl
    have hplace := hw ▸ h.agrees.place_eq hs
    have hlt := h.kept.used s (by rw [hplace]; rfl)
    refine ⟨_, h.agrees.hold (.inl hs) rfl, ?_, h.blocks.take hlt hplace, ?_, ?_⟩
    · exact h.kept.congr (update_same (by rw [hplace]; rfl)) (update_same (by rw [hplace]; rfl))
        (update_same (by rw [hplace]; rfl)) (update_same (by rw [hplace]; rfl)) rfl rfl rfl
        (set_same (σ := x.server) (s := s) (f := Session.id) rfl)
        (set_same (σ := x.server) (s := s) (f := Session.closing) rfl)
    · exact h.recorded.congr (update_same (by rw [hplace]; rfl)) (update_same (by rw [hplace]; rfl))
        rfl rfl (set_same (σ := x.server) (s := s) (f := Session.id) rfl)
    · exact h.counted.goto _ (by rw [hw]; rfl)
  | insert s =>
    rw [hw] at hstep
    obtain rfl := Option.some.inj hstep
    have hs : (x.worker w).session = some s := by rw [hw]; rfl
    have hplace := hw ▸ h.agrees.place_eq hs
    refine ⟨_, h.agrees.put hs rfl .open, h.kept.insert hplace, ?_,
      h.recorded.insert hplace (h.kept.id_lt s), ?_⟩
    · exact h.blocks.congr (update_same (by rw [hplace]; rfl)) rfl fun _ => rfl
    · refine h.counted.goto _ ?_
      rw [hw, h.kept.length_insert hplace]
      simp only [Worker.counting, Worker.uncounting, Server.insertEntry]
      omega
  | count =>
    rw [hw] at hstep
    obtain rfl := Option.some.inj hstep
    refine ⟨_, h.agrees.pass (by rw [hw]; rfl) rfl, ?_, ?_, ?_, ?_⟩
    · exact h.kept.congr (fun _ => rfl) (fun _ => rfl) (fun _ => rfl) (fun _ => rfl) rfl rfl rfl
        (fun _ => rfl) fun _ => rfl
    · exact h.blocks.congr (fun _ => rfl) rfl fun _ => rfl
    · exact h.recorded.congr (fun _ => rfl) (fun _ => rfl) rfl rfl fun _ => rfl
    · refine h.counted.goto _ ?_
      rw [hw]
      simp only [Worker.counting, Worker.uncounting, Server.countUp]
      omega
  | closeSock s =>
    rw [hw] at hstep
    obtain rfl := Option.some.inj hstep
    exact ⟨_, h.carry (s := s) (by rw [hw]; rfl) rfl (by rw [hw]; rfl) (by rw [hw]; rfl)
      (by rw [hw]; rfl) (by rw [hw]; rfl) rfl rfl rfl rfl rfl (fun t => ⟨rfl, rfl, rfl⟩) (by rw [hw]; rfl)⟩
  | giveBuf s =>
    rw [hw] at hstep
    obtain rfl := Option.some.inj hstep
    have hs : (x.worker w).session = some s := by rw [hw]; rfl
    have hplace := hw ▸ h.agrees.place_eq hs
    have hlt := h.kept.used s (by rw [hplace]; rfl)
    refine ⟨_, h.agrees.hold (.inl hs) rfl, ?_, h.blocks.give hlt hplace, ?_, ?_⟩
    · exact h.kept.congr (update_same (by rw [hplace]; rfl)) (update_same (by rw [hplace]; rfl))
        (update_same (by rw [hplace]; rfl)) (update_same (by rw [hplace]; rfl)) rfl rfl rfl
        (set_same (σ := x.server) (s := s) (f := Session.id) rfl)
        (set_same (σ := x.server) (s := s) (f := Session.closing) rfl)
    · exact h.recorded.congr (update_same (by rw [hplace]; rfl)) (update_same (by rw [hplace]; rfl))
        rfl rfl (set_same (σ := x.server) (s := s) (f := Session.id) rfl)
    · exact h.counted.goto _ (by rw [hw]; rfl)
  | erase s =>
    rw [hw] at hstep
    obtain rfl := Option.some.inj hstep
    have hs : (x.worker w).session = some s := by rw [hw]; rfl
    have hplace := hw ▸ h.agrees.place_eq hs
    refine ⟨_, h.agrees.hold (.inl hs) rfl, h.kept.erase hplace, ?_, ?_, ?_⟩
    · exact h.blocks.congr (update_same (by rw [hplace]; rfl)) rfl fun _ => rfl
    · exact h.recorded.congr (update_same (by rw [hplace]; rfl)) (update_same (by rw [hplace]; rfl))
        rfl rfl fun _ => rfl
    · refine h.counted.goto _ ?_
      rw [hw, ← h.kept.length_erase hplace]
      simp only [Worker.counting, Worker.uncounting, Server.eraseEntry]
      omega
  | uncount s =>
    rw [hw] at hstep
    obtain rfl := Option.some.inj hstep
    refine ⟨_, h.carry (s := s) (by rw [hw]; rfl) rfl (by rw [hw]; rfl) (by rw [hw]; rfl)
      (by rw [hw]; rfl) (by rw [hw]; rfl) rfl rfl rfl rfl rfl (fun t => ⟨rfl, rfl, rfl⟩) ?_⟩
    rw [hw]
    simp only [Worker.counting, Worker.uncounting, Server.countDown]
    omega
  | release s =>
    rw [hw] at hstep
    obtain rfl := Option.some.inj hstep
    have hs : (x.worker w).session = some s := by rw [hw]; rfl
    have hplace := hw ▸ h.agrees.place_eq hs
    refine ⟨_, h.agrees.put hs rfl .pool, h.kept.release hplace, ?_, h.recorded.release hplace, ?_⟩
    · exact h.blocks.congr (update_same (by rw [hplace]; rfl)) rfl fun _ => rfl
    · exact h.counted.goto _ (by rw [hw]; rfl)

theorem stepAccept_nil {acceptSock : Option ℕ} (hf : x.server.free = []) :
    stepAccept x w acceptSock =
      ⟨{ x.server with closedSocks := x.server.closedSocks ++ acceptSock.toList }, x.worker⟩ := by
  simp only [stepAccept, Server.acquire, hf]

theorem stepAccept_cons {free : List ℕ} {acceptSock : Option ℕ} (hf : x.server.free = s :: free) :
    stepAccept x w acceptSock = x.goto w { x.server.set s { x.server.sessions s with
      rx := (x.server.sessions s).rx.clear, closing := false } with free } (.number s acceptSock) := by
  simp only [stepAccept, Server.acquire, hf]

/-- Whoever finds the flag clear finds an open Session. -/
theorem Inv.open_of (h : Inv cap place x) (hid : (x.server.sessions s).id ≠ 0)
    (hclosing : (x.server.sessions s).closing = false)
    (hapart : ∀ v, (x.worker v).accepting ≠ some s) : place s = .on .open := by
  have heq : isClosing (place s) = false := by
    rcases h.kept.closing s with hc | ⟨hz, -⟩
    · rw [← hc, hclosing]
    · exact absurd hz hid
  cases hp : place s with
  | on shelf =>
    cases shelf with
    | pool =>
      rw [hp] at heq
      contradiction
    | «open» => rfl
  | held v p =>
    obtain ⟨rfl, hs⟩ := (h.agrees s v p).mp hp
    rw [hp] at heq
    have hnot := hapart v
    cases hw : x.worker v <;> rw [hw] at hs hnot heq <;> first | exact absurd hs hnot | contradiction

theorem Inv.step (h : Inv cap place x) {a : Act n} (hok : x.Apart a)
    (hstep : Workers.step x a = some y) : ∃ place : ℕ → Place n, Inv cap place y := by
  cases a with
  | accept w acceptSock =>
    obtain ⟨hw, hy⟩ := Option.ite_none_right_eq_some.mp hstep
    obtain rfl := Option.some.inj hy
    cases hf : x.server.free with
    | nil =>
      rw [stepAccept_nil hf]
      refine ⟨place, h.agrees, ?_, ?_, ?_, h.counted⟩
      · exact h.kept.congr (fun _ => rfl) (fun _ => rfl) (fun _ => rfl) (fun _ => rfl) rfl rfl rfl
          (fun _ => rfl) fun _ => rfl
      · exact h.blocks.congr (fun _ => rfl) rfl fun _ => rfl
      · exact h.recorded.congr (fun _ => rfl) (fun _ => rfl) rfl rfl fun _ => rfl
    | cons s free =>
      rw [stepAccept_cons hf]
      have hpool := isPooled_iff.mp ((h.kept.free s).mp (by rw [hf]; exact List.mem_cons_self ..)).2
      refine ⟨_, h.agrees.hold (.inr ⟨by rw [hw]; rfl, .pool, hpool⟩) rfl,
        h.kept.acquire hf acceptSock, ?_, ?_, ?_⟩
      · exact h.blocks.congr (update_same (by rw [hpool]; rfl)) rfl
          (set_same (σ := x.server) (s := s) (f := Session.rxBuf) rfl)
      · exact h.recorded.congr (update_same (by rw [hpool]; rfl)) (update_same (by rw [hpool]; rfl))
          rfl rfl (set_same (σ := x.server) (s := s) (f := Session.id) rfl)
      · exact h.counted.goto _ (by rw [hw]; rfl)
  | close w s =>
    obtain ⟨⟨hw, hid⟩, hy⟩ := Option.ite_none_right_eq_some.mp hstep
    obtain rfl := Option.some.inj hy
    unfold stepClose
    split_ifs with hclosing
    · exact ⟨place, h⟩
    · have hopen := h.open_of hid (Bool.eq_false_iff.mpr hclosing) hok
      refine ⟨_, h.agrees.hold (.inr ⟨by rw [hw]; rfl, .open, hopen⟩) rfl, h.kept.flag hopen, ?_, ?_,
        ?_⟩
      · exact h.blocks.congr (update_same (by rw [hopen]; rfl)) rfl
          (set_same (σ := x.server) (s := s) (f := Session.rxBuf) rfl)
      · exact h.recorded.congr (update_same (by rw [hopen]; rfl)) (update_same (by rw [hopen]; rfl))
          rfl rfl (set_same (σ := x.server) (s := s) (f := Session.id) rfl)
      · exact h.counted.goto _ (by rw [hw]; rfl)
  | work w => exact h.work hstep

theorem inv_run {acts : List (Act n)} (h : Exec step State.Apart (init n cap) acts x) :
    ∃ place : ℕ → Place n, Inv cap place x :=
  h.invariant (P := fun x => ∃ place : ℕ → Place n, Inv cap place x)
    (fun _ _ _ ⟨_, hs⟩ hok hstep => hs.step hok hstep) ⟨_, inv_init n cap⟩

/-! ### Where everything is -/

def owner : Place n → Shelf ⊕ Fin n
  | .on shelf => .inl shelf
  | .held w _ => .inr w

theorem Inv.open_iff (h : Inv cap place x) : x.At s (.inl .open) ↔ place s = .on .open := by
  constructor
  · rintro ⟨hlookup, hclosing⟩
    have htabled := ((h.kept.table _ s).mp hlookup).2
    cases hp : place s with
    | on shelf =>
      cases shelf with
      | pool =>
        rw [hp] at htabled
        contradiction
      | «open» => rfl
    | held v p =>
      have heq := h.kept.closing_eq (s := s) (by rw [hp]; rfl)
      rw [hclosing, hp] at heq
      rw [hp] at htabled
      cases p <;> contradiction
  · intro hp
    refine ⟨(h.kept.table _ s).mpr ⟨rfl, by rw [hp]; rfl⟩, ?_⟩
    refine (h.kept.closing_eq (s := s) (by rw [hp]; rfl)).trans ?_
    rw [hp]
    rfl

theorem Inv.at_iff (h : Inv cap place x) (hs : s < cap) (o : Shelf ⊕ Fin n) :
    x.At s o ↔ owner (place s) = o := by
  rcases o with shelf | w
  · cases shelf with
    | pool =>
      refine (h.kept.free s).trans ((and_iff_right hs).trans (isPooled_iff.trans ?_))
      cases place s <;> simp [owner]
    | «open» =>
      refine h.open_iff.trans ?_
      cases place s <;> simp [owner]
  · constructor
    · intro hw
      rw [h.agrees.place_eq hw]
      rfl
    · intro ho
      cases hp : place s with
      | on shelf =>
        rw [hp] at ho
        contradiction
      | held v p =>
        rw [hp] at ho
        obtain rfl := Sum.inr.inj ho
        obtain ⟨rfl, hv⟩ := (h.agrees s v p).mp hp
        exact hv

/-- However the workers' accepts and closes interleave, every Session is in exactly one place,
and `statCurConn_` differs from the size of the table by the workers that have yet to count. -/
theorem sessions_placed {acts : List (Act n)} (h : Exec step State.Apart (init n cap) acts x) :
    (∀ s < cap, ∃! o, x.At s o) ∧ x.server.free.Nodup ∧
      (∀ k s, x.server.sessionTable.lookup k = some s → (x.server.sessions s).id = k ∧ s < cap) ∧
        x.Counted := by
  obtain ⟨place, hinv⟩ := inv_run h
  refine ⟨?_, hinv.kept.free_nodup, ?_, hinv.counted⟩
  · intro s hs
    refine ⟨owner (place s), (hinv.at_iff hs _).mpr rfl, ?_⟩
    intro o ho
    exact ((hinv.at_iff hs o).mp ho).symm
  · intro k s hk
    obtain ⟨hid, htabled⟩ := (hinv.kept.table k s).mp hk
    refine ⟨hid, hinv.kept.used s ?_⟩
    cases hp : place s with
    | on shelf =>
      cases shelf with
      | pool =>
        rw [hp] at htabled
        contradiction
      | «open» => rfl
    | held v p => rfl

/-- Two workers accept at once. -/
def both (v w : Fin n) : List (Act n) :=
  [.accept v (some 7), .accept w (some 8)] ++ (List.replicate 6 [.work v, .work w]).flatten

/-- Both of them close one of the connections. -/
def twice (v w : Fin n) : List (Act n) := both v w ++ [.close v 0, .close w 0, .work v]

theorem sessions_placed_twice : ∃ x : State 2, x.worker 0 = .giveBuf 0 ∧ ∃! o, x.At 0 o := by
  obtain ⟨x, hx, hw⟩ : ∃ x, Exec step State.Apart (init 2 2) (twice 0 1) x ∧ x.worker 0 = .giveBuf 0 :=
    Exec.exists_of_runIf (by decide +kernel)
  exact ⟨x, hw, (sessions_placed hx).1 0 (by decide)⟩

/-- A late `CloseSession` may come in between: then the Session is in the pool and open. -/
example : ∃ x : State 2, x.At 0 (.inl .pool) ∧ x.At 0 (.inl .open) := by
  obtain ⟨x, -, hx⟩ : ∃ x, Exec step (fun _ _ => True) (init 2 1) (.accept 0 (some 7) ::
      List.replicate 6 (.work 0) ++ .close 0 0 :: List.replicate 5 (.work 0) ++
        [.accept 0 (some 8), .work 0, .close 1 0] ++ List.replicate 5 (.work 1) ++
          List.replicate 5 (.work 0)) x ∧ 0 ∈ x.server.free ∧
      x.server.sessionTable.lookup (x.server.sessions 0).id = some 0 ∧
        (x.server.sessions 0).closing = false := Exec.exists_of_runIf (by decide +kernel)
  exact ⟨x, hx⟩

theorem Inv.live_iff (h : Inv cap place x) : isLive (place s) = true ↔
    x.At s (.inl .open) ∨ ∃ w, (x.worker w).session = some s ∧ (x.worker w).closing = true := by
  rw [h.open_iff]
  constructor
  · intro hl
    cases hp : place s with
    | on shelf =>
      cases shelf with
      | pool =>
        rw [hp] at hl
        contradiction
      | «open» => exact .inl rfl
    | held w p =>
      obtain ⟨rfl, hs⟩ := (h.agrees s w p).mp hp
      rw [hp] at hl
      exact .inr ⟨w, hs, hl⟩
  · rintro (hp | ⟨w, hs, hc⟩)
    · rw [hp]
      rfl
    · rw [h.agrees.place_eq hs]
      exact hc

/-- Every connection is accepted once and closed at most once; it is not closed as long as it is
open or a worker is about to close it. -/
theorem connections_recorded {acts : List (Act n)}
    (h : Exec step State.Apart (init n cap) acts x) :
    (accepts x.server.trace).Nodup ∧ (closes x.server.trace).Nodup ∧
      (∀ c ∈ closes x.server.trace, c ∈ accepts x.server.trace) ∧
        ∀ s k, (s, k) ∈ accepts x.server.trace → ((s, k) ∉ closes x.server.trace ↔
          (x.server.sessions s).id = k ∧ (x.At s (.inl .open) ∨
            ∃ w, (x.worker w).session = some s ∧ (x.worker w).closing = true)) := by
  obtain ⟨place, hinv⟩ := inv_run h
  have hrec := hinv.recorded
  refine ⟨hrec.nodup, hrec.closed_nodup, ?_, ?_⟩
  · rintro ⟨s, k⟩ hc
    exact ((hrec.closed s k).mp hc).1
  · intro s k hk
    rw [hrec.closed, not_and, not_not, hinv.live_iff]
    exact ⟨fun hlive => hlive hk, fun hlive _ => hlive⟩

theorem connections_recorded_twice : ∃ x : State 2, closes x.server.trace = [(0, 2)] ∧
    (accepts x.server.trace).Nodup ∧ (1, 1) ∉ closes x.server.trace := by
  obtain ⟨x, hx, hcloses, hmem, hid, hopen⟩ : ∃ x, Exec step State.Apart (init 2 2)
      (twice 0 1 ++ List.replicate 4 (.work 0)) x ∧ closes x.server.trace = [(0, 2)] ∧
        (1, 1) ∈ accepts x.server.trace ∧ (x.server.sessions 1).id = 1 ∧
          x.server.sessionTable.lookup (x.server.sessions 1).id = some 1 ∧
            (x.server.sessions 1).closing = false := Exec.exists_of_runIf (by decide +kernel)
  have hrec := connections_recorded hx
  exact ⟨x, hcloses, hrec.1, (hrec.2.2.2 1 1 hmem).mpr ⟨hid, .inl hopen⟩⟩

/-- Whenever no worker is at it, a Session that is not open is in the pool. -/
theorem Inv.rest (h : Inv cap place x) (hrest : ∀ w, x.worker w = .idle) :
    (∀ s, place s = .on .open ↔ x.server.Open s) ∧
      ∀ s, place s = .on .pool ↔ ¬ x.server.Open s := by
  have hshelf (s : ℕ) : place s = .on .pool ∨ place s = .on .open := by
    cases hp : place s with
    | on shelf => cases shelf <;> simp
    | held w p =>
      obtain ⟨rfl, hs⟩ := (h.agrees s w p).mp hp
      rw [hrest w] at hs
      contradiction
  have hopen (s : ℕ) : place s = .on .open ↔ x.server.Open s := by
    constructor
    · intro hp
      exact ⟨(h.open_iff.mpr hp).2, h.kept.named s (by rw [hp]; rfl)⟩
    · rintro ⟨hclosing, hid⟩
      refine h.open_of hid hclosing ?_
      intro v
      rw [hrest v]
      nofun
  refine ⟨hopen, ?_⟩
  intro s
  rw [← hopen]
  rcases hshelf s with hp | hp <;> rw [hp] <;> simp

theorem quiet_step {a : Act n} (hstep : step x a = some y) :
    y.server.recvs = x.server.recvs ∧ y.server.sends = x.server.sends := by
  cases a with
  | accept w acceptSock =>
    obtain ⟨-, hy⟩ := Option.ite_none_right_eq_some.mp hstep
    obtain rfl := Option.some.inj hy
    cases hf : x.server.free with
    | nil =>
      rw [stepAccept_nil hf]
      exact ⟨rfl, rfl⟩
    | cons s free =>
      rw [stepAccept_cons hf]
      exact ⟨rfl, rfl⟩
  | close w s =>
    obtain ⟨-, hy⟩ := Option.ite_none_right_eq_some.mp hstep
    obtain rfl := Option.some.inj hy
    unfold stepClose
    split_ifs <;> exact ⟨rfl, rfl⟩
  | work w =>
    rw [step, stepWork] at hstep
    cases hw : x.worker w <;> rw [hw] at hstep <;>
      first | contradiction | (obtain rfl := Option.some.inj hstep; exact ⟨rfl, rfl⟩)

theorem quiet_run {acts : List (Act n)} (h : Exec step State.Apart (init n cap) acts x) :
    x.server.recvs = [] ∧ x.server.sends = [] := by
  refine h.invariant (P := fun x => x.server.recvs = [] ∧ x.server.sends = []) ?_ ⟨rfl, rfl⟩
  intro x a y ⟨hr, hs⟩ _ hstep
  obtain ⟨hr', hs'⟩ := quiet_step hstep
  exact ⟨hr'.trans hr, hs'.trans hs⟩

theorem Inv.books (h : Inv cap place x) (hrest : ∀ w, x.worker w = .idle)
    (hr : x.server.recvs = []) (hs : x.server.sends = []) : Books cap x.server := by
  obtain ⟨hopen, hpool⟩ := h.rest hrest
  obtain ⟨hagrees, hkept, hblocks, -, hcounted⟩ := h
  have hidle : x.worker = fun _ => .idle := funext hrest
  exact {
    table := by
      intro k s
      rw [hkept.table, and_comm, ← hopen]
      refine and_congr_left fun _ => ?_
      by_cases ho : x.server.Open s
      · rw [(hopen s).mpr ho]
        exact iff_of_true rfl rfl
      · rw [(hpool s).mpr ho]
        exact iff_of_false nofun nofun
    free := by
      intro s
      rw [hkept.free, isPooled_iff, hpool]
    free_nodup := hkept.free_nodup
    open_buf := by
      intro s ho
      refine Option.isSome_iff_ne_none.mp ?_
      rw [hblocks.buffered, (hopen s).mpr ho]
      rfl
    closed_buf := by
      intro s ho
      refine Option.isNone_iff_eq_none.mp (Option.isSome_eq_false_iff.mp ?_)
      rw [hblocks.buffered, (hpool s).mpr ho]
      rfl
    buf_fresh := hblocks.out
    buf_inj := hblocks.inj
    pool_nodup := hblocks.nodup
    pool_lt := hblocks.lt
    id_lt := hkept.id_lt
    used := hkept.known
    count := by
      rw [State.Counted, hidle] at hcounted
      simpa [tally, Worker.counting, Worker.uncounting] using hcounted
    recvs := by simp [hr]
    sends := by simp [hs] }

theorem Inv.buffers_rest (h : Inv cap place x) (hrest : ∀ w, x.worker w = .idle)
    (hb : Books cap x.server) : buffers cap place = x.server.tabled.length := by
  obtain ⟨hopen, hpool⟩ := h.rest hrest
  have hset : (Finset.range cap).filter (· ∈ x.server.tabled) = x.server.tabled.toFinset := by
    ext s
    rw [Finset.mem_filter, List.mem_toFinset, Finset.mem_range]
    exact and_iff_right_of_imp fun hs => hb.used s (hb.mem_tabled.mp hs).2
  rw [← List.toFinset_card_of_nodup hb.tabled_nodup, ← hset, Finset.card_filter]
  refine Finset.sum_congr rfl fun s _ => ?_
  split_ifs with hs
  · rw [(hopen s).mpr (hb.mem_tabled.mp hs)]
    rfl
  · rw [(hpool s).mpr (mt hb.mem_tabled.mpr hs)]
    rfl

theorem books_rest {acts : List (Act n)} (h : Exec step State.Apart (init n cap) acts x)
    (hrest : ∀ w, x.worker w = .idle) : Books cap x.server := by
  obtain ⟨place, hinv⟩ := inv_run h
  obtain ⟨hr, hs⟩ := quiet_run h
  exact hinv.books hrest hr hs

/-- Whenever no worker is at it, the books are those of the server that does one thing at a
time, and every connection that is not in the table has been closed. -/
theorem workers_rest {acts : List (Act n)} (h : Exec step State.Apart (init n cap) acts x)
    (hrest : ∀ w, x.worker w = .idle) :
    Books cap x.server ∧ x.server.free.length + x.server.tabled.length = cap ∧
      x.server.bufferPool.pool.length + x.server.tabled.length = x.server.bufferPool.fresh ∧
        ∀ s k, (s, k) ∈ accepts x.server.trace →
          ((s, k) ∈ closes x.server.trace ↔ x.server.sessionTable.lookup k ≠ some s) := by
  obtain ⟨place, hinv⟩ := inv_run h
  obtain ⟨hopen, hpool⟩ := hinv.rest hrest
  have hbooks := books_rest h hrest
  have hlen := hbooks.split.length_eq
  rw [List.length_append, List.length_range] at hlen
  refine ⟨hbooks, hlen, ?_, ?_⟩
  · rw [hinv.blocks.all, hinv.buffers_rest hrest hbooks]
  · intro s k hk
    rw [hinv.recorded.closed, and_iff_right hk, Ne, hbooks.table, and_comm, ← hopen]
    refine not_congr (and_congr_left fun _ => ?_)
    by_cases ho : x.server.Open s
    · rw [(hopen s).mpr ho]
      exact iff_of_true rfl rfl
    · rw [(hpool s).mpr ho]
      exact iff_of_false nofun nofun

theorem workers_rest_twice : ∃ x : State 2, x.server.tabled = [1] ∧ Books 2 x.server := by
  obtain ⟨x, hx, hrest, htabled⟩ : ∃ x, Exec step State.Apart (init 2 2)
      (twice 0 1 ++ List.replicate 4 (.work 0)) x ∧ (∀ w, x.worker w = .idle) ∧ x.server.tabled = [1] :=
    Exec.exists_of_runIf (by decide +kernel)
  exact ⟨x, htabled, (workers_rest hx hrest).1⟩

/-! ### One worker alone -/

/-- A worker takes its next step. -/
theorem Exec.work {acts : List (Act n)} {p q : Worker} {τ : Server}
    (hstep : stepWork (x.goto w σ p) w = some ((x.goto w σ p).goto w τ q))
    (h : Exec step (fun _ _ => True) (x.goto w τ q) acts y) :
    Exec step (fun _ _ => True) (x.goto w σ p) (.work w :: acts) y := by
  have hgoto : (x.goto w σ p).goto w τ q = x.goto w τ q := by simp [State.goto]
  exact .cons trivial (hstep.trans (congrArg some hgoto)) h

theorem closeSession_eq (hopen : (σ.sessions s).closing = false) : closeSession s σ =
    ((((σ.flag s).closeSock s).giveBuf s).eraseEntry s).countDown.release s := by
  cases hb : (σ.sessions s).rxBuf <;>
    simp [closeSession, hopen, hb, Server.flag, Server.closeSock, Server.giveBuf,
      Server.eraseEntry, Server.countDown, Server.release, Server.set]

theorem connect_steps (free : List ℕ) (acceptSock : Option ℕ) :
    connect s free acceptSock σ =
      (((((Server.number { σ.set s { σ.sessions s with
        rx := (σ.sessions s).rx.clear, closing := false } with free } s acceptSock).setSending s
          false).reopen s).takeBuf s).insertEntry s).countUp := by
  simp [connect_eq, Server.connected, Server.number, Server.setSending, Server.reopen,
    Server.takeBuf, Server.insertEntry, Server.countUp, Server.set]

/-- Nobody comes between the steps of `CloseSession`: it does what it does when there is one
worker. -/
theorem close_alone (hw : x.worker w = .idle) (hid : (x.server.sessions s).id ≠ 0)
    (hopen : (x.server.sessions s).closing = false) :
    Exec step (fun _ _ => True) x (.close w s :: List.replicate 5 (.work w))
      ⟨closeSession s x.server, x.worker⟩ := by
  have hcall : step x (.close w s) = some (x.goto w (x.server.flag s) (.closeSock s)) := by
    simp [step, hw, hid, stepClose, hopen]
  have hend : x.goto w (closeSession s x.server) .idle = ⟨closeSession s x.server, x.worker⟩ := by
    simp [State.goto, ← hw]
  refine .cons trivial hcall ?_
  iterate 5 refine Exec.work (by simp only [stepWork, State.goto, Function.update_self]; rfl) ?_
  rw [← hend, closeSession_eq hopen]
  exact .nil _

/-- Nobody comes between the steps of `AcceptCompletion`: the Session on top of the pool becomes a
connection as it does when there is one worker. -/
theorem accept_alone (hw : x.worker w = .idle) {free : List ℕ} (hf : x.server.free = s :: free)
    (acceptSock : Option ℕ) :
    Exec step (fun _ _ => True) x (.accept w acceptSock :: List.replicate 6 (.work w))
      ⟨connect s free acceptSock x.server, x.worker⟩ := by
  have hcall : step x (.accept w acceptSock) = some (x.goto w { x.server.set s
      { x.server.sessions s with rx := (x.server.sessions s).rx.clear, closing := false } with free }
        (.number s acceptSock)) := by
    rw [step, if_pos hw, stepAccept_cons hf]
  have hend : x.goto w (connect s free acceptSock x.server) .idle =
      ⟨connect s free acceptSock x.server, x.worker⟩ := by
    simp [State.goto, ← hw]
  refine .cons trivial hcall ?_
  iterate 6 refine Exec.work (by simp only [stepWork, State.goto, Function.update_self]; rfl) ?_
  rw [← hend, connect_steps]
  exact .nil _

end IocpChat.Workers
