import Mathlib.Tactic

/-! Runs of machines. `Exec` is a run of a partial step function in which every
step also meets a condition on the state before it; `serve` is a run of a machine
that answers every request. The rules are the inductions every safety proof needs: an
invariant along a run, a simulation between two servers, a loop over distinct targets, and
attempts that are repeated until one succeeds. -/

namespace Runs

variable {σ τ ε ι ο : Type*}

/-- A run from `s` to `t` whose steps all meet `ok` where they are taken. -/
inductive Exec (step : σ → ε → Option σ) (ok : σ → ε → Prop) : σ → List ε → σ → Prop
  | nil (s : σ) : Exec step ok s [] s
  | cons {s t u : σ} {e : ε} {es : List ε} :
      ok s e → step s e = some t → Exec step ok t es u → Exec step ok s (e :: es) u

/-- Execute a list of events as long as `ok` holds where they are taken. -/
def runIf (step : σ → ε → Option σ) (ok : σ → ε → Prop) [∀ s e, Decidable (ok s e)] :
    σ → List ε → Option σ
  | s, [] => some s
  | s, e :: es => if ok s e then (step s e).bind fun t => runIf step ok t es else none

section Exec

variable {step : σ → ε → Option σ} {ok : σ → ε → Prop} {s t : σ} {es : List ε}

/-- What every allowed step preserves holds wherever a run leads. -/
theorem Exec.invariant {P : σ → Prop}
    (hstep : ∀ s e t, P s → ok s e → step s e = some t → P t)
    (h : Exec step ok s es t) (hs : P s) : P t := by
  induction h with
  | nil => exact hs
  | cons hok he _ ih => exact ih (hstep _ _ _ hs hok he)

theorem Exec.append {u : σ} {fs : List ε} (h : Exec step ok s es t) (h' : Exec step ok t fs u) :
    Exec step ok s (es ++ fs) u := by
  induction h with
  | nil => exact h'
  | cons hok he _ ih => exact .cons hok he (ih h')

theorem Exec.imp {ok' : σ → ε → Prop} (hok : ∀ s e, ok s e → ok' s e) (h : Exec step ok s es t) :
    Exec step ok' s es t := by
  induction h with
  | nil s => exact .nil s
  | cons he hs _ ih => exact .cons (hok _ _ he) hs ih

/-- If every allowed step of one machine is a run of another, every run is. -/
theorem Exec.simulate {step' : τ → ι → Option τ} {ok' : τ → ι → Prop} {f : σ → τ} {P : σ → Prop}
    (hstep : ∀ s e t, P s → ok s e → step s e = some t →
      P t ∧ ∃ is, Exec step' ok' (f s) is (f t))
    (h : Exec step ok s es t) (hs : P s) : ∃ is, Exec step' ok' (f s) is (f t) := by
  induction h with
  | nil s => exact ⟨[], .nil _⟩
  | cons hok he _ ih =>
    obtain ⟨ht, is, his⟩ := hstep _ _ _ hs hok he
    obtain ⟨js, hjs⟩ := ih ht
    exact ⟨is ++ js, his.append hjs⟩

theorem Exec.of_runIf [∀ s e, Decidable (ok s e)] (h : runIf step ok s es = some t) :
    Exec step ok s es t := by
  induction es generalizing s with
  | nil => cases h; exact .nil _
  | cons e es ih =>
    rw [runIf] at h
    split_ifs at h with hok
    obtain ⟨m, hm, ht⟩ := Option.bind_eq_some_iff.mp h
    exact .cons hok hm (ih ht)

/-- A run can be found by executing it. -/
theorem Exec.exists_of_runIf [∀ s e, Decidable (ok s e)] {P : σ → Prop} [DecidablePred P]
    (h : (runIf step ok s es).any (fun t => decide (P t)) = true) :
    ∃ t, Exec step ok s es t ∧ P t := by
  obtain ⟨t, ht, hP⟩ := (Option.any_eq_true ..).mp h
  exact ⟨t, .of_runIf ht, of_decide_eq_true hP⟩

/-- If no allowed step raises a measure and the steps of a kind lower it, a run takes no more
steps of this kind than that. -/
theorem Exec.countP_le {P : σ → Prop} {m : σ → ℕ} {p : ε → Bool}
    (hstep : ∀ s e t, P s → ok s e → step s e = some t →
      P t ∧ m t + (if p e then 1 else 0) ≤ m s)
    (h : Exec step ok s es t) (hs : P s) : es.countP p + m t ≤ m s := by
  induction h with
  | nil => exact (Nat.zero_add _).le
  | cons hok he _ ih =>
    obtain ⟨ht, hle⟩ := hstep _ _ _ hs hok he
    have hrest := ih ht
    rw [List.countP_cons]
    omega

/-- If every allowed step lowers a measure, a run takes no more steps than that. -/
theorem Exec.length_le {P : σ → Prop} {m : σ → ℕ}
    (hstep : ∀ s e t, P s → ok s e → step s e = some t → P t ∧ m t < m s)
    (h : Exec step ok s es t) (hs : P s) : es.length + m t ≤ m s := by
  have hcount := h.countP_le (p := fun _ => true) hstep hs
  rwa [List.countP_true] at hcount

/-- If a step from a good state leads to a good one exactly if it is allowed, a run has allowed
steps only exactly if it passes through good states only. -/
theorem Exec.iff_forall_prefix {P : σ → Prop}
    (hstep : ∀ s e t, P s → step s e = some t → (P t ↔ ok s e)) (hs : P s)
    (h : Exec step (fun _ _ => True) s es t) : Exec step ok s es t ↔
      ∀ fs u, fs <+: es → Exec step (fun _ _ => True) s fs u → P u := by
  induction h with
  | nil s =>
    refine iff_of_true (.nil s) ?_
    intro fs u hfs hu
    obtain rfl := List.prefix_nil.mp hfs
    cases hu
    exact hs
  | @cons s t u e es _ he hrest ih =>
    constructor
    · intro hall fs v hfs hv
      cases hall with
      | cons hok he' hrest' =>
        obtain rfl := Option.some.inj (he.symm.trans he')
        have ht := (hstep _ _ _ hs he).mpr hok
        cases hv with
        | nil => exact hs
        | cons _ he'' hv' =>
          obtain ⟨rfl, htail⟩ := List.cons_prefix_cons.mp hfs
          obtain rfl := Option.some.inj (he.symm.trans he'')
          exact (ih ht).mp hrest' _ v htail hv'
    · intro hall
      have ht : P t := hall [e] t (List.prefix_cons_inj e |>.mpr List.nil_prefix)
        (.cons trivial he (.nil t))
      refine .cons ((hstep _ _ _ hs he).mp ht) he ((ih ht).mpr ?_)
      intro fs v hfs hv
      exact hall (e :: fs) v ((List.prefix_cons_inj e).mpr hfs) (.cons trivial he hv)

end Exec

/-- Answer a list of requests in turn. -/
def serve (step : σ → ι → ο × σ) : σ → List ι → List ο × σ
  | s, [] => ([], s)
  | s, i :: is => ((step s i).1 :: (serve step (step s i).2 is).1, (serve step (step s i).2 is).2)

/-- If related states give equal answers and stay related, whole runs do. -/
theorem serve_refines {f : σ → ι → ο × σ} {g : τ → ι → ο × τ} {R : σ → τ → Prop}
    (hstep : ∀ s t i, R s t → (f s i).1 = (g t i).1 ∧ R (f s i).2 (g t i).2)
    (is : List ι) {s : σ} {t : τ} (h : R s t) :
    (serve f s is).1 = (serve g t is).1 ∧ R (serve f s is).2 (serve g t is).2 := by
  induction is generalizing s t with
  | nil => exact ⟨rfl, h⟩
  | cons i is ih =>
    obtain ⟨ho, hn⟩ := hstep s t i h
    obtain ⟨hos, hns⟩ := ih hn
    exact ⟨by rw [serve, serve, ho, hos], hns⟩

/-! ### Visiting each of several targets -/

/-- If visiting one target leaves the others the same, a loop over distinct targets visits
each of them once, in a state that is the same to it as the first one, and what it leaves is
the same to it at the end. -/
theorem foldl_each (step : σ → ι → σ) (Inv : σ → Prop) {Same : ι → σ → σ → Prop}
    (hrefl : ∀ i s, Same i s s) (htrans : ∀ {i s t u}, Same i s t → Same i t u → Same i s u)
    {is : List ι} (hnodup : is.Nodup) (hinv : ∀ i ∈ is, ∀ s, Inv s → Inv (step s i))
    (hothers : ∀ i ∈ is, ∀ s, Inv s → ∀ j, j ≠ i → Same j s (step s i)) {s : σ} (hs : Inv s) :
    (∀ j, j ∉ is → Same j s (is.foldl step s)) ∧
      ∀ i ∈ is, ∃ t, Inv t ∧ Same i s t ∧ Same i (step t i) (is.foldl step s) := by
  induction is generalizing s with
  | nil => exact ⟨fun j _ => hrefl j s, nofun⟩
  | cons i is ih =>
    obtain ⟨hi, hnodup⟩ := List.nodup_cons.mp hnodup
    have hfirst := hothers i (List.mem_cons_self ..) s hs
    obtain ⟨hout, hin⟩ := ih hnodup (fun j hj => hinv j (List.mem_cons_of_mem _ hj))
      (fun j hj => hothers j (List.mem_cons_of_mem _ hj)) (hinv i (List.mem_cons_self ..) s hs)
    rw [List.foldl_cons]
    constructor
    · intro j hj
      obtain ⟨hji, hj⟩ := List.ne_and_not_mem_of_not_mem_cons hj
      exact htrans (hfirst j hji) (hout j hj)
    · intro j hj
      by_cases hji : j = i
      · subst hji
        exact ⟨s, hs, hrefl j s, hout j hi⟩
      · obtain ⟨t, ht, hsame, hend⟩ := hin j (List.mem_of_ne_of_mem hji hj)
        exact ⟨t, ht, htrans (hfirst j hji) hsame, hend⟩

/-! ### Retrying -/

section retry

variable (fails : σ → Bool) (again : σ → σ) (done : σ → τ)

/-- Try until an attempt does not fail, with at most `fuel` attempts. -/
def retry : ℕ → σ → Option τ
  | 0, _ => none
  | fuel + 1, s => if fails s then retry fuel (again s) else some (done s)

variable {fails again done}

theorem retry_of_fails {s : σ} {k : ℕ} (h : ∀ j < k, fails (again^[j] s) = true) (fuel : ℕ) :
    retry fails again done (k + fuel) s = retry fails again done fuel (again^[k] s) := by
  induction k generalizing s with
  | zero => rw [Nat.zero_add, Function.iterate_zero_apply]
  | succ k ih =>
    have hfirst : fails s = true := h 0 k.succ_pos
    rw [Nat.succ_add, retry, if_pos hfirst, Function.iterate_succ_apply]
    apply ih
    intro j hj
    rw [← Function.iterate_succ_apply]
    exact h (j + 1) (Nat.succ_lt_succ hj)

/-- What is returned is what the first attempt gives that does not fail. -/
theorem retry_eq_some {fuel : ℕ} {s : σ} {t : τ} : retry fails again done fuel s = some t ↔
    ∃ k < fuel, (∀ j < k, fails (again^[j] s) = true) ∧ fails (again^[k] s) = false ∧
      t = done (again^[k] s) := by
  constructor
  · intro h
    induction fuel generalizing s with
    | zero => cases h
    | succ fuel ih =>
      rw [retry] at h
      split_ifs at h with hfail
      · obtain ⟨k, hk, hfails, hlast, rfl⟩ := ih h
        refine ⟨k + 1, Nat.succ_lt_succ hk, ?_, hlast, rfl⟩
        intro j hj
        cases j with
        | zero => exact hfail
        | succ j => exact hfails j (Nat.lt_of_succ_lt_succ hj)
      · exact ⟨0, fuel.succ_pos, nofun, Bool.eq_false_iff.mpr hfail, (Option.some.inj h).symm⟩
  · rintro ⟨k, hk, hfails, hlast, rfl⟩
    obtain ⟨rest, rfl⟩ := Nat.exists_eq_add_of_lt hk
    rw [Nat.add_assoc, retry_of_fails hfails, retry, if_neg (Bool.eq_false_iff.mp hlast)]

/-- What a failed attempt preserves holds where the attempt succeeds. -/
theorem retry_invariant {P : σ → Prop} {Q : τ → Prop}
    (hagain : ∀ s, P s → fails s = true → P (again s))
    (hdone : ∀ s, P s → fails s = false → Q (done s)) {fuel : ℕ} {s : σ} {t : τ}
    (h : retry fails again done fuel s = some t) (hs : P s) : Q t := by
  induction fuel generalizing s with
  | zero => cases h
  | succ fuel ih =>
    rw [retry] at h
    split_ifs at h with hfail
    · exact ih h (hagain s hs hfail)
    · obtain rfl := Option.some.inj h
      exact hdone s hs (Bool.eq_false_iff.mpr hfail)

theorem retry_returns_iff {s : σ} :
    (∃ fuel t, retry fails again done fuel s = some t) ↔ ∃ k, fails (again^[k] s) = false := by
  constructor
  · rintro ⟨fuel, t, h⟩
    obtain ⟨k, -, -, hlast, -⟩ := retry_eq_some.mp h
    exact ⟨k, hlast⟩
  · intro hex
    have hfirst := Nat.find_spec hex
    refine ⟨Nat.find hex + 1, _, retry_eq_some.mpr ⟨_, Nat.lt_succ_self _, ?_, hfirst, rfl⟩⟩
    intro j hj
    exact Bool.eq_true_of_not_eq_false (Nat.find_min hex hj)

end retry

end Runs
