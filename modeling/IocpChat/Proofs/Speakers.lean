import IocpChat.Proofs.Workers
import IocpChat.Spec.Speakers

/-! Several connections speak at once, while others come and go. Of two of them the listeners may
hear in any order, but of each one they hear all that is broadcast while they are there, in its
order. -/

namespace IocpChat.Workers

variable {n cap k s : ℕ} {x y : State n} {w v : Fin n} {a : Act n} {place : ℕ → Place n}

/-! ### What a step of accept or close changes -/

/-- Only the worker that enters a Session into the table brings it there. -/
theorem lookup_of_work (hstep : stepWork x w = some y)
    (h : y.server.sessionTable.lookup k = some s) :
    x.server.sessionTable.lookup k = some s ∨ x.worker w = .insert s := by
  unfold stepWork at hstep
  cases hw : x.worker w with
  | idle =>
    rw [hw] at hstep
    contradiction
  | insert t =>
    rw [hw] at hstep
    obtain rfl := Option.some.inj hstep
    change (x.server.sessionTable.insert (x.server.sessions t).id t).lookup k = some s at h
    by_cases hk : k = (x.server.sessions t).id
    · rw [hk, AList.lookup_insert] at h
      exact .inr (congrArg Worker.insert (Option.some.inj h))
    · rw [AList.lookup_insert_ne hk] at h
      exact .inl h
  | erase t =>
    rw [hw] at hstep
    obtain rfl := Option.some.inj hstep
    change (x.server.sessionTable.erase (x.server.sessions t).id).lookup k = some s at h
    by_cases hk : k = (x.server.sessions t).id
    · rw [hk, AList.lookup_erase] at h
      contradiction
    · rw [AList.lookup_erase_ne hk] at h
      exact .inl h
  | _ =>
    rw [hw] at hstep
    obtain rfl := Option.some.inj hstep
    exact .inl h

/-- Behind `Acquire`, nobody but the accepting worker clears the flag. -/
theorem closing_of_work (hstep : stepWork x w = some y)
    (h : (y.server.sessions s).closing = false) :
    (x.server.sessions s).closing = false ∨ x.worker w = .reopen s := by
  unfold stepWork at hstep
  cases hw : x.worker w with
  | idle =>
    rw [hw] at hstep
    contradiction
  | reopen t =>
    rw [hw] at hstep
    obtain rfl := Option.some.inj hstep
    by_cases hs : s = t
    · exact .inr (congrArg Worker.reopen hs.symm)
    · refine .inl ?_
      rwa [State.goto, Server.reopen, Server.sessions_set, if_neg hs] at h
  | number t _ | sending t | allocate t | giveBuf t =>
    rw [hw] at hstep
    obtain rfl := Option.some.inj hstep
    exact .inl ((set_same (σ := x.server) (s := t) (f := Session.closing) (by rfl) s).symm.trans h)
  | _ =>
    rw [hw] at hstep
    obtain rfl := Option.some.inj hstep
    exact .inl h

/-- A Session gets the id of a new connection from the worker that accepts it, or keeps its id. -/
theorem id_of_work (hstep : stepWork x w = some y) (s : ℕ) :
    (y.server.sessions s).id = (x.server.sessions s).id ∧
        (∀ sock, x.worker w ≠ .number s sock) ∨
      (y.server.sessions s).id = x.server.sessionIdGen ∧ ∃ sock, x.worker w = .number s sock := by
  unfold stepWork at hstep
  cases hw : x.worker w with
  | idle =>
    rw [hw] at hstep
    contradiction
  | number t acceptSock =>
    rw [hw] at hstep
    obtain rfl := Option.some.inj hstep
    rw [State.goto, Server.number, Server.sessions_set]
    split_ifs with hs
    · rw [hs]
      exact .inr ⟨rfl, _, rfl⟩
    · exact .inl ⟨rfl, fun sock heq => hs (Worker.number.inj heq).1.symm⟩
  | sending t | reopen t | allocate t | giveBuf t =>
    rw [hw] at hstep
    obtain rfl := Option.some.inj hstep
    exact .inl ⟨set_same (σ := x.server) (s := t) (f := Session.id) (by rfl) s, by simp⟩
  | _ =>
    rw [hw] at hstep
    obtain rfl := Option.some.inj hstep
    exact .inl ⟨rfl, by simp⟩

theorem goto_worker (x : State n) (w : Fin n) (σ : Server) (p : Worker) :
    (x.goto w σ p).worker w = p := Function.update_self ..

theorem accepting_of_work (hstep : stepWork x w = some y) (h : (y.worker w).accepting = some s) :
    (x.worker w).accepting = some s := by
  unfold stepWork at hstep
  cases hw : x.worker w with
  | idle =>
    rw [hw] at hstep
    contradiction
  | _ =>
    rw [hw] at hstep
    obtain rfl := Option.some.inj hstep
    rw [goto_worker] at h
    first | exact h | contradiction

theorem stepWork_others (hstep : stepWork x w = some y) (hv : v ≠ w) :
    y.worker v = x.worker v := by
  unfold stepWork at hstep
  cases hw : x.worker w with
  | idle =>
    rw [hw] at hstep
    contradiction
  | _ =>
    rw [hw] at hstep
    obtain rfl := Option.some.inj hstep
    exact Function.update_of_ne hv ..

theorem id_of_step (hstep : Workers.step x a = some y) (s : ℕ) :
    (y.server.sessions s).id = (x.server.sessions s).id ∨
      ∃ w sock, a = .work w ∧ x.worker w = .number s sock := by
  cases a with
  | accept w acceptSock =>
    obtain ⟨-, hy⟩ := Option.ite_none_right_eq_some.mp hstep
    obtain rfl := Option.some.inj hy
    cases hf : x.server.free with
    | nil =>
      rw [stepAccept_nil hf]
      exact .inl rfl
    | cons t free =>
      rw [stepAccept_cons hf]
      exact .inl (set_same (σ := x.server) (s := t) (f := Session.id) (by rfl) s)
  | close w t =>
    obtain ⟨-, hy⟩ := Option.ite_none_right_eq_some.mp hstep
    obtain rfl := Option.some.inj hy
    rw [stepClose]
    split_ifs
    · exact .inl rfl
    · exact .inl (set_same (σ := x.server) (s := t) (f := Session.id) (by rfl) s)
  | work w =>
    rcases id_of_work hstep s with ⟨hid, -⟩ | ⟨-, sock, hw⟩
    · exact .inl hid
    · exact .inr ⟨w, sock, rfl, hw⟩

/-- An open Session has been open before, as the same connection, or a worker has just entered it
into the table. -/
theorem Inv.opens (h : Inv cap place x) (hstep : Workers.step x a = some y) (ho : y.At s (.inl .open)) :
    (y.server.sessions s).id = (x.server.sessions s).id ∧
      (x.At s (.inl .open) ∨ ∃ w, a = .work w ∧ x.worker w = .insert s) := by
  obtain ⟨hlookup, hclosing⟩ := ho
  cases a with
  | accept w acceptSock =>
    obtain ⟨-, hy⟩ := Option.ite_none_right_eq_some.mp hstep
    obtain rfl := Option.some.inj hy
    cases hf : x.server.free with
    | nil =>
      rw [stepAccept_nil hf] at hlookup hclosing ⊢
      exact ⟨rfl, .inl ⟨hlookup, hclosing⟩⟩
    | cons t free =>
      rw [stepAccept_cons hf] at hlookup hclosing ⊢
      have hid := set_same (σ := x.server) (s := t) (f := Session.id) (z := { x.server.sessions t with
        rx := (x.server.sessions t).rx.clear, closing := false }) rfl s
      have hold : x.server.sessionTable.lookup (x.server.sessions s).id = some s := hid ▸ hlookup
      refine ⟨hid, .inl ⟨hold, ?_⟩⟩
      have hne : s ≠ t := by
        rintro rfl
        have hpool := ((h.kept.free s).mp (by rw [hf]; exact List.mem_cons_self ..)).2
        have htabled := ((h.kept.table _ s).mp hold).2
        rw [isPooled_iff.mp hpool] at htabled
        contradiction
      rwa [State.goto, Server.sessions_set, if_neg hne] at hclosing
  | close w t =>
    obtain ⟨-, hy⟩ := Option.ite_none_right_eq_some.mp hstep
    obtain rfl := Option.some.inj hy
    by_cases hc : (x.server.sessions t).closing = true
    · rw [stepClose, if_pos hc] at hlookup hclosing ⊢
      exact ⟨rfl, .inl ⟨hlookup, hclosing⟩⟩
    · rw [stepClose, if_neg hc] at hlookup hclosing ⊢
      have hid := set_same (σ := x.server) (s := t) (f := Session.id)
        (z := { x.server.sessions t with closing := true }) rfl s
      refine ⟨hid, .inl ⟨hid ▸ hlookup, ?_⟩⟩
      rw [State.goto, Server.flag, Server.sessions_set] at hclosing
      split_ifs at hclosing
      exact hclosing
  | work w =>
    rcases lookup_of_work hstep hlookup with hold | hw
    · obtain ⟨hid, htabled⟩ := (h.kept.table _ s).mp hold
      refine ⟨hid.symm, .inl ⟨hid ▸ hold, ?_⟩⟩
      refine (closing_of_work hstep hclosing).resolve_right ?_
      intro hw
      rw [h.agrees.place_eq (w := w) (by rw [hw]; rfl), hw] at htabled
      contradiction
    · rcases id_of_work hstep s with ⟨hid, -⟩ | ⟨-, sock, hnumber⟩
      · exact ⟨hid, .inr ⟨w, rfl, hw⟩⟩
      · rw [hw] at hnumber
        contradiction

theorem Kept.tabled_nodup {σ : Server} (h : Kept cap place σ) : σ.tabled.Nodup := by
  have hentries : σ.sessionTable.entries.Nodup :=
    List.Nodup.of_map Sigma.fst σ.sessionTable.keys_nodup
  refine List.Nodup.map_on ?_ hentries
  rintro ⟨j, s⟩ hs ⟨k, t⟩ ht rfl
  have hj := ((h.table j s).mp (AList.mem_lookup_iff.mpr hs)).1
  have hk := ((h.table k s).mp (AList.mem_lookup_iff.mpr ht)).1
  rw [← hj, ← hk]

end IocpChat.Workers

namespace IocpChat.Speakers

open Runs (Exec)
open Threads

variable {n cap s t k : ℕ} {x y : State n} {b : Workers.State n} {w v : Fin n} {a : Act n}

/-! ### The receives -/

def Turn.on (s : ℕ) (t : Turn) : ℕ := if t.session = some s then 1 else 0

/-- Receives of a Session in flight, and workers busy with one. -/
def State.turns (x : State n) (s : ℕ) : ℕ := x.recvs s + tally (Turn.on s) x.turn

/-- At most one receive of a Session is in flight or being handled. -/
structure Turns (x : State n) : Prop where
  single : ∀ s, x.turns s ≤ 1
  accepting : ∀ w s, (x.base.worker w).accepting = some s → x.turn w = .accepting s
  named : ∀ s, x.turns s ≠ 0 →
    (x.base.server.sessions s).id ≠ 0 ∨ ∃ w sock, x.base.worker w = .number s sock

theorem Turn.on_eq_one {t : Turn} (h : t.session = some s) : t.on s = 1 := if_pos h

theorem Turn.on_eq_zero {t : Turn} (h : t.session ≠ some s) : t.on s = 0 := if_neg h

theorem Turn.on_le {t u : Turn} (h : t.session = .none ∨ t.session = u.session) (s : ℕ) :
    t.on s ≤ u.on s := by
  rcases h with h | h
  · rw [Turn.on, h]
    exact Nat.zero_le _
  · rw [Turn.on, h]
    exact le_rfl

theorem Turns.alone (h : Turns x) (hv : (x.turn v).session = some s)
    (hw : (x.turn w).session = some s) : v = w := by
  by_contra hne
  have htwo := add_le_tally (Turn.on s) x.turn hne
  have hsingle := h.single s
  rw [Turn.on_eq_one hv, Turn.on_eq_one hw] at htwo
  unfold State.turns at hsingle
  omega

theorem Turns.handled (h : Turns x) (hw : x.turn w = .handling s) :
    (x.base.server.sessions s).id ≠ 0 ∧ ∀ v sock, x.base.worker v ≠ .number s sock := by
  have hnot (v : Fin n) (sock : Option ℕ) : x.base.worker v ≠ .number s sock := by
    intro hv
    have hacc := h.accepting v s (by rw [hv]; rfl)
    obtain rfl := h.alone (v := v) (w := w) (by rw [hacc]; rfl) (by rw [hw]; rfl)
    rw [hacc] at hw
    contradiction
  refine ⟨(h.named s ?_).resolve_right ?_, hnot⟩
  · have hone := le_tally (Turn.on s) x.turn w
    rw [hw, Turn.on_eq_one rfl] at hone
    unfold State.turns
    omega
  · rintro ⟨v, sock, hv⟩
    exact hnot v sock hv

theorem turns_setTurn (x : State n) (w : Fin n) (t : Turn) (r : ℕ → ℕ) (s : ℕ) :
    r s + tally (Turn.on s) (Function.update x.turn w t) + x.recvs s + (x.turn w).on s =
      x.turns s + r s + t.on s := by
  have htally := tally_update (Turn.on s) x.turn w t
  unfold State.turns
  omega

theorem Turns.setTurn (h : Turns x) (hw : x.base.worker w = .idle) {t : Turn} {r : ℕ → ℕ}
    (hle : ∀ s, r s + t.on s ≤ x.recvs s + (x.turn w).on s) :
    Turns { x.setTurn w t with recvs := r } := by
  have hturns (s : ℕ) : State.turns { x.setTurn w t with recvs := r } s ≤ x.turns s := by
    have hset := turns_setTurn x w t r s
    have hle := hle s
    change r s + tally (Turn.on s) (Function.update x.turn w t) ≤ _
    omega
  refine ⟨fun s => (hturns s).trans (h.single s), ?_, ?_⟩
  · intro v s hv
    by_cases hvw : v = w
    · rw [hvw] at hv
      exact nomatch (congrArg Workers.Worker.accepting hw).symm.trans hv
    · exact (Function.update_of_ne hvw ..).trans (h.accepting v s hv)
  · intro s hs
    exact h.named s fun hzero => hs (Nat.le_zero.mp (hzero ▸ hturns s))

theorem Turns.accept (h : Turns x) {acceptSock : Option ℕ} (htimely : x.Timely (.accept w acceptSock))
    (hturn : x.turn w = .none) (hstep : Workers.step x.base (.accept w acceptSock) = some b) :
    Turns { x.setTurn w (.acquired (b.worker w)) with base := b } := by
  obtain ⟨hw, hb⟩ := Option.ite_none_right_eq_some.mp hstep
  obtain rfl := Option.some.inj hb
  cases hf : x.base.server.free with
  | nil =>
    rw [Workers.stepAccept_nil hf]
    simp only [hw, Turn.acquired]
    have hset := h.setTurn hw (t := .none) (r := x.recvs) fun s => by rw [hturn]
    exact ⟨hset.single, hset.accepting, hset.named⟩
  | cons t free =>
    obtain ⟨hrecvs, hturns⟩ := htimely t (by rw [hf]; rfl)
    rw [Workers.stepAccept_cons hf, Workers.goto_worker, Turn.acquired]
    have hzero : x.turns t = 0 := by
      rw [State.turns, hrecvs, Nat.zero_add]
      exact Finset.sum_eq_zero fun v _ => Turn.on_eq_zero (hturns v)
    have hother {s : ℕ} (hs : s ≠ t) : Turn.on s (.accepting t) = 0 :=
      Turn.on_eq_zero fun heq => hs (Option.some.inj heq).symm
    have hset (s : ℕ) : x.recvs s + tally (Turn.on s) (Function.update x.turn w (.accepting t)) =
        x.turns s + Turn.on s (.accepting t) := by
      have hset := turns_setTurn x w (.accepting t) x.recvs s
      have hnone : (x.turn w).on s = 0 := by rw [hturn]; rfl
      omega
    refine ⟨?_, ?_, ?_⟩
    · intro s
      refine (hset s).trans_le ?_
      by_cases hs : s = t
      · rw [hs, hzero, Turn.on_eq_one rfl]
      · rw [hother hs]
        exact h.single s
    · intro v s hv
      by_cases hvw : v = w
      · rw [hvw] at hv ⊢
        have hts : t = s := Option.some.inj
          ((congrArg Workers.Worker.accepting (Workers.goto_worker ..)).symm.trans hv)
        exact (Function.update_self ..).trans (congrArg Turn.accepting hts)
      · have hold : (x.base.worker v).accepting = some s :=
          (congrArg Workers.Worker.accepting (Function.update_of_ne hvw ..)).symm.trans hv
        exact (Function.update_of_ne hvw ..).trans (h.accepting v s hold)
    · intro s hs
      by_cases hst : s = t
      · rw [hst]
        exact .inr ⟨w, acceptSock, Workers.goto_worker ..⟩
      · have hold : x.turns s ≠ 0 := by
          intro hzero
          refine hs ((hset s).trans ?_)
          rw [hzero, hother hst]
        rcases h.named s hold with hid | ⟨v, sock, hv⟩
        · refine .inl fun hz => hid ?_
          exact (Workers.set_same (σ := x.base.server) (s := t) (f := Session.id) (by rfl) s).symm.trans hz
        · have hvw : v ≠ w := by
            rintro rfl
            exact nomatch hw.symm.trans hv
          exact .inr ⟨v, sock, (Function.update_of_ne hvw ..).trans hv⟩

theorem Turns.work (h : Turns x) (hgen : 0 < x.base.server.sessionIdGen)
    (hstep : Workers.stepWork x.base w = some b) : Turns (x.work w b) where
  single := h.single
  accepting v s hv := by
    by_cases hvw : v = w
    · rw [hvw] at hv ⊢
      exact h.accepting w s (Workers.accepting_of_work hstep hv)
    · exact h.accepting v s ((congrArg Workers.Worker.accepting
        (Workers.stepWork_others hstep hvw)).symm.trans hv)
  named s hs := by
    rcases Workers.id_of_work hstep s with ⟨hid, hnot⟩ | ⟨hid, -⟩
    · rcases h.named s hs with hold | ⟨v, sock, hv⟩
      · exact .inl fun hz => hold (hid.symm.trans hz)
      · have hvw : v ≠ w := by
          rintro rfl
          exact hnot sock hv
        exact .inr ⟨v, sock, (Workers.stepWork_others hstep hvw).trans hv⟩
    · exact .inl fun hz => hgen.ne' (hid.symm.trans hz)

theorem Turns.close (h : Turns x) (hstep : Workers.step x.base (.close w s) = some b) :
    Turns { x with base := b } := by
  obtain ⟨⟨hw, -⟩, hb⟩ := Option.ite_none_right_eq_some.mp hstep
  obtain rfl := Option.some.inj hb
  unfold Workers.stepClose
  split_ifs with hc
  · exact h
  · refine ⟨h.single, ?_, ?_⟩
    · intro v t hv
      by_cases hvw : v = w
      · rw [hvw] at hv
        exact nomatch (congrArg Workers.Worker.accepting (Workers.goto_worker ..)).symm.trans hv
      · exact h.accepting v t ((congrArg Workers.Worker.accepting
          (Function.update_of_ne hvw ..)).symm.trans hv)
    · intro t ht
      rcases h.named t ht with hid | ⟨v, sock, hv⟩
      · refine .inl fun hz => hid ?_
        exact (Workers.set_same (σ := x.base.server) (s := s) (f := Session.id) (by rfl) t).symm.trans hz
      · have hvw : v ≠ w := by
          rintro rfl
          exact nomatch hw.symm.trans hv
        exact .inr ⟨v, sock, (Function.update_of_ne hvw ..).trans hv⟩

/-! ### Who speaks, and who has heard what -/

theorem owes_iff {c : Option Call} : owes t k c ↔
    ∃ i todo loaded, c = some ⟨.said k i, todo, loaded⟩ ∧ t ∈ todo := by
  cases c with
  | none => simp [owes]
  | some c =>
    obtain ⟨m, todo, loaded⟩ := c
    cases m <;> simp [owes]

/-- What was broadcast for connection `k` while the Session was in the table: it has been told of
it in order and without a gap, up to now or to the message that is still to come. -/
def State.Hears (x : State n) (t k : ℕ) : Prop :=
  ∃ i j, i ≤ j ∧ i ≤ x.since t k ∧ x.since t k ≤ i + 1 ∧
    numbers k (x.told t) = List.range' i (j - i) ∧
      (x.said k = j ∧ ¬ Pending t k x.call ∨ x.said k = j + 1 ∧ Pending t k x.call)

/-- Whoever broadcasts does so for the connection whose receive it handles. -/
def Spoken (x : State n) : Prop :=
  ∀ w k i todo loaded, x.call w = some ⟨.said k i, todo, loaded⟩ → ∃ s, x.turn w = .handling s ∧
    (x.base.server.sessions s).id = k ∧ i + 1 = x.said k ∧ s ∉ todo ∧ todo.Nodup

structure Inv (cap : ℕ) (x : State n) : Prop where
  books : ∃ place, Workers.Inv cap place x.base
  turns : Turns x
  spoken : Spoken x
  hears : ∀ t k, x.base.At t (.inl .open) → k ≠ (x.base.server.sessions t).id → x.Hears t k
  own : ∀ t, x.base.At t (.inl .open) → numbers (x.base.server.sessions t).id (x.told t) = []

theorem inv_init (n cap : ℕ) : Inv cap (init n cap) where
  books := ⟨_, Workers.inv_init n cap⟩
  turns := by
    have hzero (s : ℕ) : (init n cap).turns s = 0 := by
      simp [State.turns, tally, init, Turn.on, Turn.session]
    refine ⟨fun s => (hzero s).trans_le (Nat.zero_le 1), ?_, fun s hs => absurd (hzero s) hs⟩
    intro w s hw
    contradiction
  spoken := by
    intro w k i todo loaded hw
    contradiction
  hears t k ho := by simp [Workers.State.At, init, Workers.init, Server.new] at ho
  own t _ := rfl

theorem Inv.alone (h : Inv cap x) {r : ℕ} (hv : x.turn v = .handling r) (hw : x.turn w = .handling s)
    (hid : (x.base.server.sessions r).id = (x.base.server.sessions s).id) : v = w := by
  obtain ⟨place, hbase⟩ := h.books
  obtain rfl := hbase.kept.id_inj r s (h.turns.handled hv).1 hid
  exact h.turns.alone (by rw [hv]; rfl) (by rw [hw]; rfl)

theorem pending_update {call : Fin n → Option Call} {c : Option Call}
    (h : owes t k c ↔ owes t k (call w)) : Pending t k (Function.update call w c) ↔ Pending t k call := by
  refine exists_congr fun v => ?_
  by_cases hv : v = w
  · rw [hv, Function.update_self]
    exact h
  · rw [Function.update_of_ne hv]

theorem Inv.setTurn (h : Inv cap x) (hfree : x.Free w) {t : Turn} {r : ℕ → ℕ}
    (hle : ∀ s, r s + t.on s ≤ x.recvs s + (x.turn w).on s) :
    Inv cap { x.setTurn w t with recvs := r } where
  books := h.books
  turns := h.turns.setTurn hfree.1 hle
  spoken v k i todo loaded hv := by
    obtain ⟨s, hs, hrest⟩ := h.spoken v k i todo loaded hv
    refine ⟨s, (Function.update_of_ne ?_ ..).trans hs, hrest⟩
    rintro rfl
    exact nomatch hfree.2.symm.trans hv
  hears := h.hears
  own := h.own

/-- A Session that has just been entered into the table has heard nothing, and nothing but what is
under way is still to come. -/
theorem Spoken.hears (h : Spoken x) (htold : x.told t = []) (hsince : x.since t = x.said) :
    x.Hears t k := by
  by_cases hp : Pending t k x.call
  · obtain ⟨v, hv⟩ := hp
    obtain ⟨i, todo, loaded, hc, -⟩ := owes_iff.mp hv
    obtain ⟨s, -, -, hpos, -⟩ := h v k i todo loaded hc
    refine ⟨x.said k - 1, x.said k - 1, le_rfl, ?_, ?_, ?_, .inr ⟨by omega, v, hv⟩⟩
    · rw [hsince]
      omega
    · rw [hsince]
      omega
    · rw [htold, Nat.sub_self]
      rfl
  · refine ⟨x.said k, x.said k, le_rfl, ?_, ?_, ?_, .inl ⟨rfl, hp⟩⟩
    · rw [hsince]
    · rw [hsince]
      exact Nat.le_succ _
    · rw [htold, Nat.sub_self]
      rfl

/-- What a worker does in `AcceptCompletion` or `CloseSession`: who is in the table has heard the
same, and who comes in has heard nothing. -/
theorem Inv.base (h : Inv cap x) {c : Workers.Act n} (hapart : x.base.Apart c)
    (hstep : Workers.step x.base c = some b) {turn : Fin n → Turn} {told : ℕ → List Msg}
    {since : ℕ → ℕ → ℕ} (hturns : Turns { x with base := b, turn, told, since })
    (hturn : ∀ v s, x.turn v = .handling s → turn v = .handling s)
    (hold : ∀ t, (∀ w, c = .work w → x.base.worker w ≠ .insert t) →
      told t = x.told t ∧ since t = x.since t)
    (hnew : ∀ t w, c = .work w → x.base.worker w = .insert t → told t = [] ∧ since t = x.said) :
    Inv cap { x with base := b, turn, told, since } := by
  obtain ⟨place, hbase⟩ := h.books
  have hspoken : Spoken { x with base := b, turn, told, since } := by
    intro v k i todo loaded hv
    obtain ⟨s, hs, hid, hrest⟩ := h.spoken v k i todo loaded hv
    refine ⟨s, hturn v s hs, ?_, hrest⟩
    rcases Workers.id_of_step hstep s with hsame | ⟨w, sock, -, hw⟩
    · exact hsame.trans hid
    · exact absurd hw ((h.turns.handled hs).2 w sock)
  have hentered (t : ℕ) (ho : b.At t (.inl .open)) :
      (∃ w, c = .work w ∧ x.base.worker w = .insert t) ∨
        (told t = x.told t ∧ since t = x.since t) ∧ x.base.At t (.inl .open) := by
    by_cases hw : ∃ w, c = .work w ∧ x.base.worker w = .insert t
    · exact .inl hw
    · refine .inr ⟨hold t fun w hc hins => hw ⟨w, hc, hins⟩, ?_⟩
      exact (hbase.opens hstep ho).2.resolve_right hw
  refine ⟨hbase.step hapart hstep, hturns, hspoken, ?_, ?_⟩
  · intro t k ho hk
    rcases hentered t ho with ⟨w, hc, hw⟩ | ⟨⟨htold, hsince⟩, hopen⟩
    · obtain ⟨htold, hsince⟩ := hnew t w hc hw
      exact hspoken.hears htold hsince
    · obtain ⟨i, j, hij, hi, hi', hnum, hsaid⟩ :=
        h.hears t k hopen fun heq => hk (heq.trans (hbase.opens hstep ho).1.symm)
      rw [← hsince] at hi hi'
      rw [← htold] at hnum
      exact ⟨i, j, hij, hi, hi', hnum, hsaid⟩
  · intro t ho
    rcases hentered t ho with ⟨w, hc, hw⟩ | ⟨⟨htold, -⟩, hopen⟩
    · change numbers _ (told t) = []
      rw [(hnew t w hc hw).1]
      rfl
    · change numbers (b.server.sessions t).id (told t) = []
      rw [htold, (hbase.opens hstep ho).1]
      exact h.own t hopen

theorem Inv.setCall (h : Inv cap x) {c : Option Call}
    (hspoken : ∀ k i todo loaded, c = some ⟨.said k i, todo, loaded⟩ → ∃ s,
      x.turn w = .handling s ∧ (x.base.server.sessions s).id = k ∧ i + 1 = x.said k ∧ s ∉ todo ∧
        todo.Nodup)
    (howes : ∀ t k, x.base.At t (.inl .open) → (owes t k c ↔ owes t k (x.call w))) :
    Inv cap (x.setCall w c) where
  books := h.books
  turns := ⟨h.turns.single, h.turns.accepting, h.turns.named⟩
  spoken v k i todo loaded hv := by
    change Function.update x.call w c v = _ at hv
    by_cases hvw : v = w
    · rw [hvw, Function.update_self] at hv
      rw [hvw]
      exact hspoken k i todo loaded hv
    · rw [Function.update_of_ne hvw] at hv
      exact h.spoken v k i todo loaded hv
  hears t k ho hk := by
    obtain ⟨i, j, hij, hi, hi', hnum, hsaid⟩ := h.hears t k ho hk
    refine ⟨i, j, hij, hi, hi', hnum, ?_⟩
    change x.said k = j ∧ ¬ Pending t k (Function.update x.call w c) ∨
      x.said k = j + 1 ∧ Pending t k (Function.update x.call w c)
    rw [pending_update (howes t k ho)]
    exact hsaid
  own := h.own

theorem Inv.announce (h : Inv cap x) (hcall : x.call w = none) {snapshot : List ℕ}
    (hstep : stepAnnounce x w snapshot = some y) : Inv cap y := by
  unfold stepAnnounce at hstep
  cases hw : x.turn w with
  | none | accepting s | posting s =>
    rw [hw] at hstep
    contradiction
  | handling s =>
    rw [hw] at hstep
    obtain ⟨hperm, hy⟩ := Option.ite_none_right_eq_some.mp hstep
    obtain rfl := Option.some.inj hy
    obtain ⟨place, hbase⟩ := h.books
    set conn := (x.base.server.sessions s).id with hconn
    have hsilent (v : Fin n) (i : ℕ) (todo : List ℕ) (loaded : Bool) :
        x.call v ≠ some ⟨.said conn i, todo, loaded⟩ := by
      intro hv
      obtain ⟨r, hr, hid, -⟩ := h.spoken v conn i todo loaded hv
      obtain rfl := h.alone hr hw hid
      exact nomatch hcall.symm.trans hv
    refine ⟨h.books, ⟨h.turns.single, h.turns.accepting, h.turns.named⟩, ?_, ?_, h.own⟩
    · intro v k i todo loaded hv
      change Function.update x.call w _ v = _ at hv
      by_cases hvw : v = w
      · rw [hvw, Function.update_self, Option.some.injEq, Call.mk.injEq, Msg.said.injEq] at hv
        obtain ⟨⟨rfl, rfl⟩, rfl, -⟩ := hv
        rw [hvw]
        refine ⟨s, hw, rfl, ?_, by simp, (hperm.nodup_iff.mpr hbase.kept.tabled_nodup).filter _⟩
        change x.said conn + 1 = Function.update x.said conn (x.said conn + 1) conn
        rw [Function.update_self]
      · rw [Function.update_of_ne hvw] at hv
        obtain ⟨r, hr, hid, hi, hrest⟩ := h.spoken v k i todo loaded hv
        have hk : k ≠ conn := by
          rintro rfl
          exact hsilent v i todo loaded hv
        refine ⟨r, hr, hid, ?_, hrest⟩
        change i + 1 = Function.update x.said conn (x.said conn + 1) k
        rw [Function.update_of_ne hk, hi]
    · intro t k ho hk
      obtain ⟨i, j, hij, hi, hi', hnum, hsaid⟩ := h.hears t k ho hk
      refine ⟨i, j, hij, hi, hi', hnum, ?_⟩
      change Function.update x.said conn (x.said conn + 1) k = j ∧
          ¬ Pending t k (Function.update x.call w (some _)) ∨
        Function.update x.said conn (x.said conn + 1) k = j + 1 ∧
          Pending t k (Function.update x.call w (some _))
      by_cases hkc : k = conn
      · subst hkc
        -- nobody else broadcasts for this connection
        have hnot : ¬ Pending t conn x.call := by
          rintro ⟨v, hv⟩
          obtain ⟨i, todo, loaded, hc, -⟩ := owes_iff.mp hv
          exact hsilent v i todo loaded hc
        rw [Function.update_self, (hsaid.resolve_right fun hp => hnot hp.2).1]
        refine .inr ⟨rfl, w, ?_⟩
        rw [Function.update_self]
        refine ⟨rfl, List.mem_filter.mpr ⟨?_, ?_⟩⟩
        · exact hperm.mem_iff.mpr (Server.mem_tabled.mpr ⟨_, ho.1⟩)
        · have hts : t ≠ s := by
            rintro rfl
            exact hk rfl
          simpa using hts
      · rw [Function.update_of_ne hkc, pending_update]
        · exact hsaid
        · rw [hcall]
          exact iff_of_false (fun hconn => hkc hconn.1.symm) id

theorem numbers_append (told : List Msg) (m : Msg) :
    numbers k (told ++ [m]) = numbers k told ++ (m.number k).toList := by
  rw [numbers, List.filterMap_append, numbers]
  cases hm : m.number k <;> simp [hm]

theorem Inv.push (h : Inv cap x) {m : Msg} {todo : List ℕ} {loaded : Bool}
    (hcall : x.call w = some ⟨m, s :: todo, loaded⟩) :
    Inv cap { x.setCall w (some ⟨m, todo, false⟩) with
      told := Function.update x.told s (x.told s ++ [m]) } := by
  obtain ⟨place, hbase⟩ := h.books
  refine ⟨h.books, ⟨h.turns.single, h.turns.accepting, h.turns.named⟩, ?_, ?_, ?_⟩
  · intro v k i todo' loaded' hv
    change Function.update x.call w _ v = _ at hv
    by_cases hvw : v = w
    · rw [hvw, Function.update_self, Option.some.injEq, Call.mk.injEq] at hv
      obtain ⟨rfl, rfl, -⟩ := hv
      obtain ⟨r, hr, hid, hi, hnot, hnodup⟩ := h.spoken w k i _ loaded hcall
      rw [hvw]
      exact ⟨r, hr, hid, hi, List.not_mem_of_not_mem_cons hnot, hnodup.of_cons⟩
    · rw [Function.update_of_ne hvw] at hv
      exact h.spoken v k i todo' loaded' hv
  · intro t k ho hk
    obtain ⟨i, j, hij, hi, hi', hnum, hsaid⟩ := h.hears t k ho hk
    change ∃ i j, i ≤ j ∧ i ≤ x.since t k ∧ x.since t k ≤ i + 1 ∧
      numbers k (Function.update x.told s (x.told s ++ [m]) t) = List.range' i (j - i) ∧
        (x.said k = j ∧ ¬ Pending t k (Function.update x.call w (some ⟨m, todo, false⟩)) ∨
          x.said k = j + 1 ∧ Pending t k (Function.update x.call w (some ⟨m, todo, false⟩)))
    by_cases hts : t = s
    · subst hts
      rw [Function.update_self, numbers_append]
      cases hm : m.number k with
      | none =>
        rw [Option.toList_none, List.append_nil, pending_update]
        · exact ⟨i, j, hij, hi, hi', hnum, hsaid⟩
        · rw [hcall]
          cases m with
          | answer => exact Iff.rfl
          | said conn number =>
            have hconn : conn ≠ k := by
              rintro rfl
              simp [Msg.number] at hm
            exact iff_of_false (fun howes => hconn howes.1) fun howes => hconn howes.1
      | some number =>
        obtain rfl : m = .said k number := by
          cases m with
          | answer => contradiction
          | said conn number =>
            by_cases hconn : conn = k <;> simp [Msg.number, hconn] at hm ⊢
            exact hm
        -- what was still to come has come, and nobody else broadcasts for this connection
        obtain ⟨r, hr, hid, hnumber, -, hnodup⟩ := h.spoken w k number _ loaded hcall
        have hpending : Pending t k x.call := ⟨w, hcall ▸ ⟨rfl, List.mem_cons_self ..⟩⟩
        have hnext : x.said k = j + 1 := by
          rcases hsaid with ⟨-, hnot⟩ | ⟨hnext, -⟩
          · exact absurd hpending hnot
          · exact hnext
        have hnot : ¬ Pending t k (Function.update x.call w (some ⟨.said k number, todo, false⟩)) := by
          rintro ⟨v, hv⟩
          by_cases hvw : v = w
          · rw [hvw, Function.update_self] at hv
            exact (List.nodup_cons.mp hnodup).1 hv.2
          · rw [Function.update_of_ne hvw] at hv
            obtain ⟨number', todo', loaded', hcv, -⟩ := owes_iff.mp hv
            obtain ⟨r', hr', hid', -⟩ := h.spoken v k number' todo' loaded' hcv
            exact hvw (h.alone hr' hr (hid'.trans hid.symm))
        refine ⟨i, j + 1, Nat.le_succ_of_le hij, hi, hi', ?_, .inl ⟨hnext, hnot⟩⟩
        have hj : number = i + (j - i) := by omega
        rw [hnum, Nat.succ_sub hij, List.range'_1_concat, hj]
        rfl
    · rw [Function.update_of_ne hts, pending_update]
      · exact ⟨i, j, hij, hi, hi', hnum, hsaid⟩
      · rw [hcall]
        cases m <;> simp [owes, hts]
  · intro t ho
    change numbers (x.base.server.sessions t).id (Function.update x.told s (x.told s ++ [m]) t) = []
    by_cases hts : t = s
    · subst hts
      rw [Function.update_self, numbers_append, h.own t ho, List.nil_append]
      cases m with
      | answer => rfl
      | said conn i =>
        rw [Msg.number, if_neg]
        · rfl
        -- nobody is told what was broadcast for its own connection
        · rintro rfl
          obtain ⟨r, hr, hid, -, hnot, -⟩ := h.spoken w _ i _ loaded hcall
          obtain rfl := hbase.kept.id_inj r t (h.turns.handled hr).1 hid
          exact hnot (List.mem_cons_self ..)
    · rw [Function.update_of_ne hts]
      exact h.own t ho

theorem Inv.stepCall (h : Inv cap x) (hstep : stepCall x w = some y) : Inv cap y := by
  unfold Speakers.stepCall at hstep
  split at hstep
  · contradiction
  next m loaded hcall =>
    obtain rfl := Option.some.inj hstep
    refine h.setCall nofun fun t k _ => ?_
    rw [hcall]
    cases m <;> simp [owes]
  next m s todo hcall =>
    obtain rfl := Option.some.inj hstep
    have hspoken (k i : ℕ) (hm : m = .said k i) := h.spoken w k i (s :: todo) false (hm ▸ hcall)
    split_ifs with hclosing
    · refine h.setCall ?_ ?_
      · rintro k i todo' loaded heq
        obtain ⟨rfl, rfl, -⟩ := Call.mk.inj (Option.some.inj heq)
        obtain ⟨r, hr, hid, hi, hnot, hnodup⟩ := hspoken k i rfl
        exact ⟨r, hr, hid, hi, List.not_mem_of_not_mem_cons hnot, hnodup.of_cons⟩
      · intro t k ho
        have hts : t ≠ s := by
          rintro rfl
          exact absurd ho.2 (by rw [hclosing]; decide)
        rw [hcall]
        cases m <;> simp [owes, hts]
    · refine h.setCall ?_ ?_
      · rintro k i todo' loaded heq
        obtain ⟨rfl, rfl, -⟩ := Call.mk.inj (Option.some.inj heq)
        exact hspoken k i rfl
      · intro t k _
        rw [hcall]
        cases m <;> exact Iff.rfl
  next m s todo hcall =>
    obtain rfl := Option.some.inj hstep
    exact h.push hcall

theorem Inv.step (h : Inv cap x) (hok : x.Timely a) (hstep : Speakers.step x a = some y) :
    Inv cap y := by
  cases a with
  | accept w acceptSock =>
    obtain ⟨⟨hcall, hturn⟩, hb⟩ := Option.ite_none_right_eq_some.mp hstep
    obtain ⟨b, hbase, rfl⟩ := Option.map_eq_some_iff.mp hb
    refine h.base (c := .accept w acceptSock) trivial hbase (h.turns.accept hok hturn hbase) ?_
      (fun _ _ => ⟨rfl, rfl⟩) nofun
    intro v s hv
    refine (Function.update_of_ne ?_ ..).trans hv
    rintro rfl
    exact nomatch hturn.symm.trans hv
  | close w s =>
    obtain ⟨b, hbase, rfl⟩ := Option.map_eq_some_iff.mp hstep
    exact h.base (c := .close w s) hok hbase (h.turns.close hbase) (fun _ _ hv => hv)
      (fun _ _ => ⟨rfl, rfl⟩) nofun
  | work w =>
    obtain ⟨b, hbase, rfl⟩ := Option.map_eq_some_iff.mp hstep
    obtain ⟨place, hinv⟩ := h.books
    refine h.base (c := .work w) trivial hbase
      (h.turns.work (Nat.zero_lt_of_lt (hinv.kept.id_lt 0)) hbase) (fun _ _ hv => hv) ?_ ?_
    · intro t hw
      exact ⟨if_neg (hw w rfl), if_neg (hw w rfl)⟩
    · intro t v hv hw
      obtain rfl := Workers.Act.work.inj hv
      exact ⟨if_pos hw, if_pos hw⟩
  | complete w s =>
    obtain ⟨⟨hfree, hturn, hpos⟩, hy⟩ := Option.ite_none_right_eq_some.mp hstep
    obtain rfl := Option.some.inj hy
    refine h.setTurn hfree fun t => ?_
    by_cases hts : t = s
    · subst hts
      rw [Function.update_self, Turn.on_eq_one rfl]
      omega
    · have hother : Turn.on t (.handling s) = 0 :=
        Turn.on_eq_zero fun heq => hts (Option.some.inj heq).symm
      rw [Function.update_of_ne hts, hother]
      exact Nat.le_add_right ..
  | post w =>
    obtain ⟨hfree, hy⟩ := Option.ite_none_right_eq_some.mp hstep
    unfold stepPost at hy
    cases hturn : x.turn w with
    | none | posting s =>
      rw [hturn] at hy
      contradiction
    | accepting s | handling s =>
      rw [hturn] at hy
      obtain rfl := Option.some.inj hy
      refine h.setTurn (r := x.recvs) hfree fun t => Nat.add_le_add_left (Turn.on_le ?_ t) _
      rw [hturn]
      split_ifs
      · exact .inl rfl
      · exact .inr rfl
  | recv w ok =>
    obtain ⟨hfree, hy⟩ := Option.ite_none_right_eq_some.mp hstep
    unfold stepRecv at hy
    cases hturn : x.turn w with
    | none | accepting s | handling s =>
      rw [hturn] at hy
      contradiction
    | posting s =>
      rw [hturn] at hy
      obtain rfl := Option.some.inj hy
      refine h.setTurn hfree fun t => ?_
      rw [hturn]
      by_cases hts : t = s
      · subst hts
        rw [Turn.on_eq_one (t := .posting t) rfl]
        cases ok
        · exact Nat.le_succ _
        · exact (Function.update_self ..).le
      · refine Nat.le_trans (Nat.le_of_eq ?_) (Nat.le_add_right ..)
        cases ok
        · rfl
        · exact Function.update_of_ne hts ..
  | leave w =>
    obtain ⟨hfree, hy⟩ := Option.ite_none_right_eq_some.mp hstep
    unfold stepLeave at hy
    cases hturn : x.turn w with
    | none | accepting s | posting s =>
      rw [hturn] at hy
      contradiction
    | handling s =>
      rw [hturn] at hy
      obtain rfl := Option.some.inj hy
      exact h.setTurn (r := x.recvs) hfree fun t => Nat.add_le_add_left (Turn.on_le (.inl rfl) t) _
  | announce w snapshot =>
    obtain ⟨hfree, hy⟩ := Option.ite_none_right_eq_some.mp hstep
    exact h.announce hfree.2 hy
  | answer w s =>
    obtain ⟨hfree, hy⟩ := Option.ite_none_right_eq_some.mp hstep
    obtain rfl := Option.some.inj hy
    refine h.setCall nofun fun t k _ => ?_
    rw [hfree.2]
    exact Iff.rfl
  | call w =>
    obtain ⟨-, hy⟩ := Option.ite_none_right_eq_some.mp hstep
    exact h.stepCall hy

theorem inv_run {acts : List (Act n)} (h : Exec step State.Timely (init n cap) acts x) :
    Inv cap x :=
  h.invariant (fun _ _ _ hs hok hstep => hs.step hok hstep) (inv_init n cap)

/-- Whatever the workers do at once: a connection is never told what was broadcast for itself, and
of every other one it has been told without a gap, each once and in its order, what was broadcast
from its entry into the table until now. Only the message that was under way at its entry may come
in addition, and only the one that is under way now may be missing. -/
theorem told_in_order {acts : List (Act n)} (h : Exec step State.Timely (init n cap) acts x)
    (ht : x.base.At t (.inl .open)) :
    numbers (x.base.server.sessions t).id (x.told t) = [] ∧
      ∀ k ≠ (x.base.server.sessions t).id, ∃ i j, i ≤ j ∧ i ≤ x.since t k ∧ x.since t k ≤ i + 1 ∧
        numbers k (x.told t) = List.range' i (j - i) ∧
          (x.said k = j ∧ ¬ Pending t k x.call ∨ x.said k = j + 1 ∧ Pending t k x.call) :=
  ⟨(inv_run h).own t ht, fun k hk => (inv_run h).hears t k ht hk⟩

/-- A worker accepts a connection and posts its receive. -/
def joins (w : Fin n) : List (Act n) :=
  .accept w none :: List.replicate 6 (.work w) ++ [.post w, .recv w true]

/-- Two of four connections speak at once. -/
def crossing (v w : Fin n) : List (Act n) :=
  (List.replicate 4 (joins v)).flatten ++
    [.complete v 0, .complete w 1, .announce v [0, 1, 2, 3], .announce w [0, 1, 3, 2]] ++
      List.replicate 4 (.call v) ++ List.replicate 4 (.call w) ++ [.call v, .call v, .call w, .call w]

theorem told_in_order_crossing : ∃ x : State 2, x.told 2 = [.said 4 0, .said 3 0] ∧
    ∃ i j, numbers 4 (x.told 2) = List.range' i (j - i) := by
  obtain ⟨x, hx, htold, hopen, hid⟩ : ∃ x, Exec step State.Timely (init 2 4) (crossing 0 1) x ∧
      x.told 2 = [.said 4 0, .said 3 0] ∧
        (x.base.server.sessionTable.lookup (x.base.server.sessions 2).id = some 2 ∧
          (x.base.server.sessions 2).closing = false) ∧ (x.base.server.sessions 2).id = 2 :=
    Exec.exists_of_runIf (by decide +kernel)
  obtain ⟨i, j, -, -, -, hnum, -⟩ := (told_in_order hx hopen).2 4 (by rw [hid]; decide)
  exact ⟨x, htold, i, j, hnum⟩

/-- Of two speakers, two listeners may hear in different orders. -/
example : ∃ x : State 2, x.told 2 = [.said 4 0, .said 3 0] ∧ x.told 3 = [.said 3 0, .said 4 0] := by
  obtain ⟨x, -, hx⟩ : ∃ x, Exec step State.Timely (init 2 4) (crossing 0 1) x ∧
      x.told 2 = [.said 4 0, .said 3 0] ∧ x.told 3 = [.said 3 0, .said 4 0] :=
    Exec.exists_of_runIf (by decide +kernel)
  exact ⟨x, hx⟩

end IocpChat.Speakers
