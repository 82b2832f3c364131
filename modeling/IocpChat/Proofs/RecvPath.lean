import IocpChat.Lib.Runs
import IocpChat.Lib.Tally
import IocpChat.Spec.RecvPath

/-! A receive in flight, and each worker on its way to the next one, is a turn. There is one turn
as long as nobody takes the Session from the pool while an old one is still out, so `rx` needs no
lock; and there are two as soon as somebody does. -/

namespace IocpChat.RecvPath

open Runs (Exec)
open Threads

variable {n : ℕ} {x y : State n} {w : Fin n} {a : Act n} {acts : List (Act n)}

theorem turns_goto (w : Fin n) (p : Pc) (closing : Bool) (pooled recvs : ℕ) :
    ({ x.goto w p with closing, pooled, recvs } : State n).turns + x.recvs +
      (x.pc w).turn = x.turns + recvs + p.turn := by
  have htally := tally_update Pc.turn x.pc w p
  simp only [State.turns, State.goto]
  omega

theorem turns_goto_le {p : Pc} (closing : Bool) (pooled : ℕ) {recvs : ℕ}
    (hle : recvs + p.turn ≤ x.recvs + (x.pc w).turn) :
    ({ x.goto w p with closing, pooled, recvs } : State n).turns ≤ x.turns := by
  have hgoto := turns_goto (x := x) w p closing pooled recvs
  omega

theorem turn_le (p : Pc) : p.turn ≤ 1 := Bool.toNat_le _

theorem turn_back (byHandler : Bool) : (Pc.back byHandler).turn = byHandler.toNat := by
  cases byHandler <;> rfl

/-- A worker's own step brings no further turn. -/
theorem turns_next {recvOk : Bool} (h : next x w recvOk = some y) : y.turns ≤ x.turns := by
  unfold next at h
  cases hp : x.pc w with
  | idle | drain =>
    rw [hp] at h
    contradiction
  | accepted =>
    rw [hp] at h
    obtain rfl := Option.some.inj h
    exact turns_goto_le false x.pooled (by rw [hp]; exact le_rfl)
  | reopened =>
    rw [hp] at h
    obtain rfl := Option.some.inj h
    exact turns_goto_le x.closing x.pooled (by rw [hp]; exact le_rfl)
  | postLoad =>
    rw [hp] at h
    obtain rfl := Option.some.inj h
    refine turns_goto_le x.closing x.pooled ?_
    rw [hp]
    exact Nat.add_le_add_left (turn_le _) _
  | postRecv =>
    rw [hp] at h
    cases recvOk with
    | true =>
      obtain rfl := Option.some.inj h
      exact turns_goto_le x.closing x.pooled (by rw [hp]; exact le_rfl)
    | false =>
      obtain rfl := Option.some.inj h
      exact turns_goto_le x.closing x.pooled (by rw [hp]; exact Nat.le_add_right _ _)
  | closeExchange byHandler =>
    rw [hp] at h
    obtain rfl := Option.some.inj h
    refine turns_goto_le true x.pooled ?_
    rw [hp]
    split_ifs
    · rw [turn_back]
      exact le_rfl
    · exact le_rfl
  | closeRest byHandler =>
    rw [hp] at h
    obtain rfl := Option.some.inj h
    refine turns_goto_le x.closing (x.pooled + 1) ?_
    rw [hp, turn_back]
    exact le_rfl

/-- Only taking the Session from the pool brings a further turn. -/
theorem turns_step (h : step x a = some y) (ha : ∀ w, a ≠ .accept w) : y.turns ≤ x.turns := by
  cases a with
  | accept w => exact absurd rfl (ha w)
  | complete w data =>
    obtain ⟨⟨hp, hpos⟩, hy⟩ := Option.ite_none_right_eq_some.mp h
    obtain rfl := Option.some.inj hy
    refine turns_goto_le x.closing x.pooled ?_
    have hle := turn_le (if data then .drain else .closeExchange false)
    omega
  | close w =>
    obtain ⟨hp, hy⟩ := Option.ite_none_right_eq_some.mp h
    obtain rfl := Option.some.inj hy
    exact turns_goto_le x.closing x.pooled (Nat.le_add_right _ _)
  | drain w round =>
    obtain ⟨hp, hy⟩ := Option.ite_none_right_eq_some.mp h
    obtain rfl := Option.some.inj hy
    refine turns_goto_le x.closing x.pooled ?_
    rw [hp]
    exact Nat.add_le_add_left (turn_le _) _
  | next w recvOk => exact turns_next h

theorem turns_accept (h : step x (.accept w) = some y) : y.turns = x.turns + 1 := by
  obtain ⟨⟨hp, -⟩, hy⟩ := Option.ite_none_right_eq_some.mp h
  obtain rfl := Option.some.inj hy
  have hgoto := turns_goto (x := x) w .accepted false (x.pooled - 1) x.recvs
  rw [hp] at hgoto
  exact Nat.add_right_cancel (hgoto.trans (Nat.add_right_comm ..))

theorem fresh_accept_iff : x.Fresh (.accept w) ↔ x.turns = 0 := by
  rw [State.turns, Nat.add_eq_zero_iff]
  refine and_congr_right fun _ => ?_
  constructor
  · intro hnone
    exact Finset.sum_eq_zero fun v _ => by rw [Pc.turn, hnone v]; rfl
  · intro hzero v
    have hv : (x.pc v).turn = 0 := Finset.sum_eq_zero_iff.mp hzero v (Finset.mem_univ v)
    exact Bool.toNat_eq_zero.mp hv

/-- A step leads from one turn to more than one exactly if it is an accept that is not fresh. -/
theorem single_step_iff (hx : x.Single) (h : step x a = some y) : y.Single ↔ x.Fresh a := by
  by_cases ha : ∃ w, a = .accept w
  · obtain ⟨w, rfl⟩ := ha
    rw [State.Single, turns_accept h, fresh_accept_iff]
    omega
  · have hle := turns_step h fun w hw => ha ⟨w, hw⟩
    refine iff_of_true (hle.trans hx) ?_
    cases a with
    | accept w => exact absurd ⟨w, rfl⟩ ha
    | _ => trivial

theorem single_init (n : ℕ) : (init n).Single := by
  simp [State.Single, State.turns, tally, init, Pc.turn, Pc.receives]

theorem single_run (h : Exec step State.Fresh (init n) acts x) : x.Single :=
  h.invariant (fun _ _ _ hx hok hstep => (single_step_iff hx hstep).mpr hok) (single_init n)

theorem turn_of_usesRx {p : Pc} (h : p.usesRx = true) : p.turn = 1 := by
  cases p <;> simp_all [Pc.usesRx, Pc.turn, Pc.receives]

/-- If no accept takes the Session while an earlier connection's receive is in flight or being
handled, then in every interleaving at most one `WSARecv` is in flight, at most one worker is in
the middle of something with `rx`, and none while a receive is in flight. -/
theorem rx_exclusive (h : Exec step State.Fresh (init n) acts x) :
    x.recvs ≤ 1 ∧ (∀ v w, (x.pc v).usesRx = true → (x.pc w).usesRx = true → v = w) ∧
      ∀ w, (x.pc w).usesRx = true → x.recvs = 0 := by
  have hsingle : x.recvs + tally Pc.turn x.pc ≤ 1 := single_run h
  refine ⟨(Nat.le_add_right _ _).trans hsingle, ?_, ?_⟩
  · intro v w hv hw
    by_contra hne
    have htwo := add_le_tally Pc.turn x.pc hne
    rw [turn_of_usesRx hv, turn_of_usesRx hw] at htwo
    omega
  · intro w hw
    have hone := le_tally Pc.turn x.pc w
    rw [turn_of_usesRx hw] at hone
    omega

/-- Two workers, one connection after the other. -/
def reuse (v w : Fin n) : List (Act n) :=
  [.accept v, .next v true, .next v true, .next v true, .next v true, .complete v true, .close w,
    .next w true, .drain v .closes, .next w true, .next v true, .drain v .needMore, .next v true,
    .accept w, .next w true, .next w true, .next w true, .next w true, .complete v true]

theorem rx_exclusive_reuse : ∃ x : State 2, (x.pc 0).usesRx = true ∧ x.recvs = 0 := by
  obtain ⟨x, hx, hw⟩ : ∃ x, Exec step State.Fresh (init 2) (reuse 0 1) x ∧
      (x.pc 0).usesRx = true := Exec.exists_of_runIf (by decide +kernel)
  exact ⟨x, hw, (rx_exclusive hx).2.2 0 hw⟩

/-- The condition is exact: an accept that comes too early puts a second receive under way at
once, and nothing else does. -/
theorem single_iff (h : Exec step (fun _ _ => True) (init n) acts x) :
    Exec step State.Fresh (init n) acts x ↔ ∀ before y, before <+: acts →
      Exec step (fun _ _ => True) (init n) before y → y.Single :=
  h.iff_forall_prefix (fun _ _ _ hs hstep => single_step_iff hs hstep) (single_init n)

/-- `AcceptCompletion` undoes a `CloseSession` that came since its `Acquire`, and the Session, which
is open and in the pool, is taken again. -/
def early (v w : Fin n) : List (Act n) :=
  [.accept v, .close w, .next w true, .next v true, .next w true, .accept w]

theorem single_iff_early : ∃ x : State 2, x.turns = 2 ∧ x.closing = false ∧
    ¬ Exec step State.Fresh (init 2) (early 0 1) x := by
  obtain ⟨x, hx, htwo, hopen⟩ : ∃ x, Exec step (fun _ _ => True) (init 2) (early 0 1) x ∧
      x.turns = 2 ∧ x.closing = false := Exec.exists_of_runIf (by decide +kernel)
  refine ⟨x, htwo, hopen, ?_⟩
  intro hfresh
  have hsingle : x.turns ≤ 1 := (single_iff hx).mp hfresh _ x List.prefix_rfl hx
  omega

/-! ### No open Session is left without a receive -/

/-- The worker will post a receive, or close the Session. -/
def Pc.care : Pc → ℕ
  | .closeExchange false => 1
  | p => p.turn

/-- Receives in flight, and workers that will post one or close the Session. -/
def State.cares (x : State n) : ℕ := x.recvs + tally Pc.care x.pc

theorem cares_goto_le {p : Pc} (closing : Bool) (pooled : ℕ) {recvs : ℕ}
    (hle : x.recvs + (x.pc w).care ≤ recvs + p.care) :
    x.cares ≤ ({ x.goto w p with closing, pooled, recvs } : State n).cares := by
  have htally := tally_update Pc.care x.pc w p
  simp only [State.cares, State.goto]
  omega

/-- Somebody cares for the Session as long as it is neither closing nor in the pool. -/
def State.Heard (x : State n) : Prop := x.closing = false → x.pooled = 0 → 0 < x.cares

theorem cares_pos {p : Pc} (closing : Bool) (pooled : ℕ) {recvs : ℕ} (hp : 0 < p.care) :
    0 < ({ x.goto w p with closing, pooled, recvs } : State n).cares := by
  have hle := le_tally Pc.care (Function.update x.pc w p) w
  rw [Function.update_self] at hle
  exact Nat.add_pos_right _ (hp.trans_le hle)

theorem Heard.goto (hx : x.Heard) {p : Pc} {r : ℕ}
    (hle : x.recvs + (x.pc w).care ≤ r + p.care) :
    ({ x.goto w p with recvs := r } : State n).Heard := by
  intro hclosing hpooled
  exact (hx hclosing hpooled).trans_le (cares_goto_le x.closing x.pooled hle)

theorem heard_next (hx : x.Heard) {recvOk : Bool} (h : next x w recvOk = some y) : y.Heard := by
  unfold next at h
  cases hp : x.pc w with
  | idle | drain =>
    rw [hp] at h
    contradiction
  | accepted =>
    rw [hp] at h
    obtain rfl := Option.some.inj h
    exact fun _ _ => cares_pos false x.pooled (by decide)
  | reopened =>
    rw [hp] at h
    obtain rfl := Option.some.inj h
    exact fun _ _ => cares_pos x.closing x.pooled (by decide)
  | postLoad =>
    rw [hp] at h
    obtain rfl := Option.some.inj h
    intro hclosing hpooled
    -- `PostRecv` is left only if the Session is closing
    change x.closing = false at hclosing
    rw [hclosing]
    exact Heard.goto hx (r := x.recvs) (by rw [hp]; exact le_rfl) hclosing hpooled
  | postRecv =>
    rw [hp] at h
    cases recvOk with
    | true =>
      obtain rfl := Option.some.inj h
      exact Heard.goto hx (by rw [hp]; exact le_rfl)
    | false =>
      obtain rfl := Option.some.inj h
      exact Heard.goto hx (by rw [hp]; exact le_rfl)
  | closeExchange byHandler =>
    rw [hp] at h
    obtain rfl := Option.some.inj h
    intro hclosing _
    contradiction
  | closeRest byHandler =>
    rw [hp] at h
    obtain rfl := Option.some.inj h
    intro _ hpooled
    exact absurd hpooled (Nat.succ_ne_zero _)

theorem heard_step (hx : x.Heard) (h : step x a = some y) : y.Heard := by
  cases a with
  | accept w =>
    obtain ⟨-, hy⟩ := Option.ite_none_right_eq_some.mp h
    obtain rfl := Option.some.inj hy
    exact fun _ _ => cares_pos false (x.pooled - 1) (by decide)
  | complete w data =>
    obtain ⟨⟨hp, hpos⟩, hy⟩ := Option.ite_none_right_eq_some.mp h
    obtain rfl := Option.some.inj hy
    refine Heard.goto hx ?_
    have hcare : (if data then Pc.drain else .closeExchange false).care = 1 := by
      cases data <;> rfl
    rw [hp, hcare, Nat.sub_add_cancel hpos]
    exact le_rfl
  | close w =>
    obtain ⟨hp, hy⟩ := Option.ite_none_right_eq_some.mp h
    obtain rfl := Option.some.inj hy
    exact Heard.goto hx (by rw [hp]; exact Nat.le_succ _)
  | drain w round =>
    obtain ⟨hp, hy⟩ := Option.ite_none_right_eq_some.mp h
    obtain rfl := Option.some.inj hy
    exact Heard.goto hx (by rw [hp]; cases round <;> exact le_rfl)
  | next w recvOk => exact heard_next hx h

/-- In every interleaving, also with Sessions taken too early: as long as a connection is neither
closing nor back in the pool, a receive is in flight, or a worker is on its way to post one or to
close the connection. -/
theorem never_deaf (h : Exec step (fun _ _ => True) (init n) acts x) (hclosing : x.closing = false)
    (hpooled : x.pooled = 0) :
    0 < x.recvs ∨ ∃ w, (x.pc w).receives = true ∨ x.pc w = .closeExchange false := by
  have hcares : 0 < x.recvs + tally Pc.care x.pc :=
    h.invariant (P := State.Heard) (fun _ _ _ hs _ hstep => heard_step hs hstep) nofun hclosing hpooled
  rcases Nat.eq_zero_or_pos x.recvs with hzero | hpos
  · right
    rw [hzero, Nat.zero_add] at hcares
    obtain ⟨w, -, hw⟩ := Finset.exists_ne_zero_of_sum_ne_zero hcares.ne'
    refine ⟨w, ?_⟩
    by_contra hnot
    obtain ⟨hreceives, hclose⟩ := not_or.mp hnot
    refine hw ?_
    cases hp : x.pc w <;> simp_all [Pc.care, Pc.turn, Pc.receives]
  · exact .inl hpos

theorem never_deaf_reuse : ∃ x : State 2, (∀ w, x.pc w = .idle) ∧ 0 < x.recvs := by
  obtain ⟨x, hx, hclosing, hpooled, hidle⟩ : ∃ x, Exec step (fun _ _ => True) (init 2)
      (reuse 0 1 ++ [.drain 0 .needMore, .next 0 true, .next 0 true]) x ∧ x.closing = false ∧
        x.pooled = 0 ∧ ∀ w, x.pc w = .idle := Exec.exists_of_runIf (by decide +kernel)
  refine ⟨x, hidle, (never_deaf hx hclosing hpooled).resolve_right ?_⟩
  rintro ⟨w, hw⟩
  rw [hidle w] at hw
  exact hw.elim nofun nofun

end IocpChat.RecvPath
