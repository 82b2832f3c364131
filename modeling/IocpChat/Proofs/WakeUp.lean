import IocpChat.Proofs.SendPath

/-! When a queued message is sure to be sent. Somebody always looks at the queue
again as long as no enqueuer finds `sending` set by a `PostSend` that has already
seen the queue empty. -/

namespace IocpChat.SendPath

open Runs

variable {W α : Type}

/-- Holding the token, or on the way from a failed `WSASend` into `CloseSession`. -/
def Pc.busy : Pc α → Bool
  | .closeExchange byPostSend => byPostSend
  | p => p.holds

structure Awake (x : State W α) : Prop where
  /-- A set flag is somebody's. -/
  owned : x.closing = false → x.sending = true → x.inFlight ≠ [] ∨ ∃ w, (x.pc w).busy = true
  /-- A flag that is clear, or about to be, does not hide a message. -/
  woken : x.sending = false ∨ (∃ w, x.pc w = .postClear) →
    x.sendQueue = [] ∨ ∃ w, x.pc w = .enqueueExchange

theorem Pc.inside_of_busy {p : Pc α} (h : p.busy = true) : p.inside = true := by
  cases p <;> simp_all [Pc.busy, Pc.holds, Pc.inside]

theorem Awake.drained {x : State W α} (h : Awake x) : Drained x := by
  intro hout hflight hopen
  have hfree : x.sending = false := by
    by_contra hs
    rcases h.owned hopen (by simpa using hs) with hne | ⟨w, hw⟩
    · exact hne hflight
    · exact absurd (Pc.inside_of_busy hw) (by simp [hout w])
  rcases h.woken (.inl hfree) with hq | ⟨w, hw⟩
  · exact hq
  · exact absurd (hout w) (by simp [hw, Pc.inside])

theorem awake_init : Awake (init : State W α) where
  owned _ h := by simp [init] at h
  woken _ := .inl rfl

section Step

variable [DecidableEq W]

theorem State.pc_goto_self (x : State W α) (w : W) (p : Pc α) : (x.goto w p).pc w = p := by
  simp [State.goto]

theorem State.pc_goto_ne (x : State W α) {v w : W} (p : Pc α) (h : v ≠ w) :
    (x.goto w p).pc v = x.pc v := by
  simp [State.goto, h]

theorem Awake.owned_goto {x : State W α} (h : Awake x) {w : W} {p : Pc α}
    (hp : (x.pc w).busy = true → p.busy = true) (hopen : x.closing = false)
    (hs : x.sending = true) : x.inFlight ≠ [] ∨ ∃ v, ((x.goto w p).pc v).busy = true := by
  rcases h.owned hopen hs with hne | ⟨v, hv⟩
  · exact .inl hne
  · by_cases hvw : v = w
    · subst hvw
      exact .inr ⟨v, by rw [x.pc_goto_self]; exact hp hv⟩
    · exact .inr ⟨v, by rwa [x.pc_goto_ne p hvw]⟩

theorem Awake.woken_goto {x : State W α} (h : Awake x) {w : W} {p : Pc α} (hp : p ≠ .postClear)
    (hw : x.pc w ≠ .enqueueExchange)
    (hclear : x.sending = false ∨ ∃ v, (x.goto w p).pc v = .postClear) :
    x.sendQueue = [] ∨ ∃ v, (x.goto w p).pc v = .enqueueExchange := by
  have hbefore : x.sending = false ∨ ∃ v, x.pc v = .postClear := by
    rcases hclear with hs | ⟨v, hv⟩
    · exact .inl hs
    · by_cases hvw : v = w
      · subst hvw
        rw [x.pc_goto_self] at hv
        exact absurd hv hp
      · exact .inr ⟨v, by rwa [x.pc_goto_ne p hvw] at hv⟩
  rcases h.woken hbefore with hq | ⟨v, hv⟩
  · exact .inl hq
  · have hvw : v ≠ w := by
      rintro rfl
      exact hw hv
    exact .inr ⟨v, by rwa [x.pc_goto_ne p hvw]⟩

theorem Awake.goto {x : State W α} (h : Awake x) {w : W} {p : Pc α}
    (hb : (x.pc w).busy = true → p.busy = true) (hp : p ≠ .postClear)
    (hw : x.pc w ≠ .enqueueExchange) : Awake (x.goto w p) :=
  ⟨h.owned_goto hb, h.woken_goto hp hw⟩

/-- While a worker holds the token, `sending` is set and nobody else is about to clear it. -/
theorem TokenAt.not_clear {x : State W α} {loc : Loc W} (h : TokenAt x loc) {w : W} {p : Pc α}
    (hw : (x.pc w).holds = true) (hp : p ≠ .postClear) :
    ¬ (x.sending = false ∨ ∃ v, (x.goto w p).pc v = .postClear) := by
  have ht := h.eq_worker hw
  rintro (hs | ⟨v, hv⟩)
  · exact absurd (ht.free.mp hs) (by simp)
  · by_cases hvw : v = w
    · subst hvw
      rw [x.pc_goto_self] at hv
      exact hp hv
    · rw [x.pc_goto_ne p hvw] at hv
      have := (ht.worker v).mp (by rw [hv]; rfl)
      simp only [Loc.worker.injEq] at this
      exact hvw this.symm

theorem Awake.next {x y : State W α} {loc : Loc W} (ht : TokenAt x loc) (h : Awake x) {w : W}
    {ok : Bool} (hok : Wakes x (.next w ok)) (hy : next x w ok = some y) : Awake y := by
  unfold SendPath.next at hy
  have hself := fun p => x.pc_goto_self w p
  cases hpc : x.pc w with
  | idle => simp [hpc] at hy
  | enqueueLoad m =>
    simp only [hpc, Option.some.injEq] at hy
    subst hy
    exact h.goto (by simp [hpc, Pc.busy, Pc.holds]) (by split_ifs <;> simp) (by simp [hpc])
  | enqueuePush m =>
    simp only [hpc, Option.some.injEq] at hy
    subst hy
    exact ⟨h.owned_goto (by simp [hpc, Pc.busy, Pc.holds]), fun _ => .inr ⟨w, hself _⟩⟩
  | enqueueExchange =>
    simp only [hpc, Option.some.injEq] at hy
    subst hy
    cases hs : x.sending with
    | true =>
      refine ⟨fun hopen _ => h.owned_goto (by simp [hpc, Pc.busy, Pc.holds]) hopen hs, ?_⟩
      rintro (hf | ⟨v, hv⟩)
      · simp at hf
      · have hvw : v ≠ w := by
          rintro rfl
          simp [hself] at hv
        -- the worker at `v` is about to store `false`, so somebody else must come
        have hclear : x.pc v = .postClear := by simpa [State.goto, hvw] using hv
        by_cases hq : x.sendQueue = []
        · exact .inl hq
        · obtain ⟨u, huw, hu⟩ : ∃ u, u ≠ w ∧ x.pc u = .enqueueExchange := by
            by_contra hnone
            exact hok.2 w ok rfl ⟨hpc, ⟨v, hclear⟩, hq, fun u hu he => hnone ⟨u, hu, he⟩⟩
          exact .inr ⟨u, by simpa [State.goto, huw] using hu⟩
    | false =>
      refine ⟨fun _ _ => .inr ⟨w, by simp [hself, Pc.busy, Pc.holds]⟩, ?_⟩
      rintro (hf | ⟨v, hv⟩)
      · simp at hf
      · have hvw : v ≠ w := by
          rintro rfl
          simp [hself] at hv
        have hhold : (x.pc v).holds = true := by
          rw [show x.pc v = .postClear by simpa [State.goto, hvw] using hv]
          rfl
        have := (ht.worker v).mp hhold
        rw [ht.free.mp hs] at this
        simp at this
  | postLoad =>
    simp only [hpc, Option.some.injEq] at hy
    subst hy
    have hhold : (x.pc w).holds = true := by rw [hpc]; rfl
    split_ifs with hc
    · exact ⟨fun hopen => absurd hopen (by simpa [State.goto] using hc),
        fun hf => absurd hf (ht.not_clear hhold (by simp))⟩
    · exact ⟨h.owned_goto (fun _ => rfl), fun hf => absurd hf (ht.not_clear hhold (by simp))⟩
  | postPop =>
    simp only [hpc, Option.some.injEq] at hy
    subst hy
    have hhold : (x.pc w).holds = true := by rw [hpc]; rfl
    refine ⟨h.owned_goto fun _ => ?_, fun hf => ?_⟩
    · cases (popBatch x.sendQueue).1 <;> rfl
    · cases hb : (popBatch x.sendQueue).1 with
      | nil =>
        have hq := popBatch_append x.sendQueue
        rw [hb, List.nil_append, popBatch_eq_nil hb] at hq
        exact .inl (by simpa [popBatch_eq_nil hb] using hq)
      | cons m toSend =>
        rw [hb] at hf
        exact absurd hf (ht.not_clear hhold (by simp))
  | postClear =>
    simp only [hpc, Option.some.injEq] at hy
    subst hy
    refine ⟨fun _ hs => by simp at hs, fun _ => ?_⟩
    rcases h.woken (.inr ⟨w, hpc⟩) with hq | ⟨v, hv⟩
    · exact .inl hq
    · have hvw : v ≠ w := by
        rintro rfl
        simp [hpc] at hv
      exact .inr ⟨v, by simpa [State.goto, hvw] using hv⟩
  | postOverlapped toSend =>
    simp only [hpc, Option.some.injEq] at hy
    subst hy
    exact ⟨h.owned_goto (fun _ => rfl),
      fun hf => absurd hf (ht.not_clear (by rw [hpc]; rfl) (by simp))⟩
  | postSend toSend =>
    simp only [hpc] at hy
    have hhold : (x.pc w).holds = true := by rw [hpc]; rfl
    split_ifs at hy with hsent <;> simp only [Option.some.injEq] at hy <;> subst hy
    · exact ⟨fun _ _ => .inl (by simp), fun hf => absurd hf (ht.not_clear hhold (by simp))⟩
    · exact ⟨h.owned_goto (fun _ => rfl), fun hf => absurd hf (ht.not_clear hhold (by simp))⟩
  | closeExchange byPostSend =>
    simp only [hpc, Option.some.injEq] at hy
    subst hy
    exact ⟨fun hopen => by simp at hopen,
      h.woken_goto (by split_ifs <;> simp) (by simp [hpc])⟩
  | closeRest byPostSend =>
    simp only [hpc, Option.some.injEq] at hy
    subst hy
    exact ⟨h.owned_goto (by simp [hpc, Pc.busy, Pc.holds]),
      h.woken_goto (by simp) (by simp [hpc])⟩

theorem Awake.step {x y : State W α} {loc : Loc W} (ht : TokenAt x loc) (h : Awake x)
    {a : Act W α} (hok : Wakes x a) (hy : step x a = some y) : Awake y := by
  cases a with
  | accept =>
    have hq := hok.1.2 rfl
    simp only [SendPath.step] at hy
    split_ifs at hy
    simp only [Option.some.injEq] at hy
    subst hy
    exact ⟨fun _ hs => by simp at hs, fun _ => .inl hq⟩
  | enqueue w m =>
    simp only [SendPath.step] at hy
    split_ifs at hy with hidle
    simp only [Option.some.injEq] at hy
    subst hy
    have hpc := Pc.eq_idle hidle
    exact h.goto (by simp [hpc, Pc.busy, Pc.holds]) (by simp) (by simp [hpc])
  | complete w i =>
    simp only [SendPath.step] at hy
    split_ifs at hy with hidle
    simp only [Option.some.injEq] at hy
    subst hy
    have hpc := Pc.eq_idle hidle.1
    exact ⟨fun _ _ => .inr ⟨w, by simp [State.goto, Pc.busy, Pc.holds]⟩,
      h.woken_goto (by simp) (by simp [hpc])⟩
  | close w =>
    simp only [SendPath.step] at hy
    split_ifs at hy with hidle
    simp only [Option.some.injEq] at hy
    subst hy
    have hpc := Pc.eq_idle hidle
    exact h.goto (by simp [hpc, Pc.busy, Pc.holds]) (by simp) (by simp [hpc])
  | next w ok => exact h.next ht hok hy

/-- In every interleaving without such an exchange, no queued message is stranded. -/
theorem wakes_drained {acts : List (Act W α)} {x : State W α}
    (h : Exec step Wakes init acts x) : Drained x := by
  have hawake : (∃ loc, TokenAt x loc) ∧ Awake x := by
    refine Exec.invariant (P := fun x => (∃ loc, TokenAt x loc) ∧ Awake x) ?_ h
      ⟨⟨.free, tokenAt_init⟩, awake_init⟩
    rintro x a y ⟨⟨loc, ht⟩, hw⟩ hok hy
    exact ⟨ht.step hok.1.1 hy, hw.step ht hok hy⟩
  exact hawake.2.drained

end Step

/-- Worker `v` has seen the queue empty when worker `w` pushes and finds `sending`
set; then worker `v` clears it. -/
def strandActs (u v w : W) : List (Act W ℕ) :=
  [.accept, .enqueue u 10, .next u true, .next u true, .next u true, .next u true, .next u true,
    .next u true, .next u true, .complete v 0, .next v true, .next v true,
    .enqueue w 20, .next w true, .next w true, .next w true, .next v true]

theorem drained_broken :
    ∃ (acts : List (Act (Fin 3) ℕ)) (x : State (Fin 3) ℕ),
      Exec step CleanAccept init acts x ∧ ¬ Drained x := by
  obtain ⟨x, hrun, hout, hflight, hopen, hq⟩ : ∃ x : State (Fin 3) ℕ,
      Exec step CleanAccept init (strandActs 0 1 2) x ∧
        (∀ w, (x.pc w).inside = false) ∧ x.inFlight = [] ∧ x.closing = false ∧ x.sendQueue ≠ [] :=
    Exec.exists_of_runIf (by decide)
  exact ⟨strandActs 0 1 2, x, hrun, fun hd => hq (hd hout hflight hopen)⟩

theorem wakes_drained_two_workers :
    ∃ x : State (Fin 3) ℕ, Exec step Wakes init ((strandActs 0 1 2).take 12 ++ [.next 1 true]) x ∧
      Drained x := by
  obtain ⟨x, hrun, -⟩ : ∃ x : State (Fin 3) ℕ,
      Exec step Wakes init ((strandActs 0 1 2).take 12 ++ [.next 1 true]) x ∧ x.inFlight = [] :=
    Exec.exists_of_runIf (by decide)
  exact ⟨x, hrun, wakes_drained hrun⟩

end IocpChat.SendPath
