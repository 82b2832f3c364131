import IocpChat.Proofs.SendPath
import IocpChat.Spec.SendMemory

/-! Nobody holds the vectors of a send in flight: every vector is in one place, and the
batch handed to `WSASend` is destroyed with the `PostSend` that handed it over. -/

namespace IocpChat.SendPath

open Runs

variable {W : Type}

/-- Where a vector is. -/
inductive Place (W : Type)
  | unmade
  | queue
  | worker (w : W)
  | destroyed
  deriving DecidableEq

/-- Everything at `a` goes to `b`. -/
def moved [DecidableEq W] (place : ℕ → Place W) (a b : Place W) (k : ℕ) : Place W :=
  if place k = a then b else place k

theorem moved_of_eq [DecidableEq W] {place : ℕ → Place W} {a b : Place W} {k : ℕ} (h : place k = a) :
    moved place a b k = b := if_pos h

theorem moved_of_ne [DecidableEq W] {place : ℕ → Place W} {a b c : Place W} {k : ℕ} (h : place k = c) (hc : c ≠ a) :
    moved place a b k = c := by
  rw [moved, if_neg (by rw [h]; exact hc), h]

/-- The vectors made so far are where `place` says, and no batch is empty. -/
structure Placed (x : State W Vec) (made : ℕ) (place : ℕ → Place W) : Prop where
  unmade : ∀ k, made ≤ k → place k = .unmade
  queue : ∀ v ∈ x.sendQueue, place v.no = .queue
  nodup : (x.sendQueue.map Vec.no).Nodup
  worker : ∀ w, ∀ v ∈ (x.pc w).vectors, place v.no = .worker w
  sent : ∀ batch ∈ x.inFlight, batch ≠ [] ∧ ∀ v ∈ batch, place v.no = .destroyed
  filled : ∀ w toSend, x.pc w = .postOverlapped toSend ∨ x.pc w = .postSend toSend → toSend ≠ []

variable {x y : State W Vec} {made : ℕ} {place : ℕ → Place W} {w : W}

theorem placed_init : Placed (init : State W Vec) 0 fun _ => .unmade where
  unmade _ _ := rfl
  queue v hv := absurd hv List.not_mem_nil
  nodup := List.nodup_nil
  worker w v hv := absurd hv List.not_mem_nil
  sent batch hb := absurd hb List.not_mem_nil
  filled w toSend h := by simp [init] at h

/-- Nobody holds a vector of a send in flight. -/
theorem Placed.not_holds {x : Memory W} (h : Placed x.path x.made place) {batch : List Vec}
    (hb : batch ∈ x.path.inFlight) {v : Vec} (hv : v ∈ batch) : ¬ x.Holds v := by
  have hplace := (h.sent batch hb).2 v hv
  rintro (hq | ⟨w, hw⟩)
  · have := h.queue v hq
    simp [hplace] at this
  · have := h.worker w v hw
    simp [hplace] at this

theorem Memory.mem_inFlight {x : Memory W} {batch : List Vec} (h : batch ∈ x.outstanding) :
    batch ∈ x.path.inFlight := by
  obtain ⟨⟨b, m⟩, hmem, rfl⟩ := List.mem_map.mp h
  exact (List.of_mem_zip (List.mem_of_mem_filter hmem)).1

variable [DecidableEq W]

theorem mem_vectors_goto {p : Pc Vec} {v : W} {u : Vec} (hu : u ∈ ((x.goto w p).pc v).vectors) :
    v = w ∧ u ∈ p.vectors ∨ v ≠ w ∧ u ∈ (x.pc v).vectors := by
  simp only [State.goto, Function.update_apply] at hu
  split_ifs at hu with hv
  · exact .inl ⟨hv, hu⟩
  · exact .inr ⟨hv, hu⟩

theorem Placed.filled_goto (h : Placed x made place) {p : Pc Vec}
    (hp : ∀ toSend, p = .postOverlapped toSend ∨ p = .postSend toSend → toSend ≠ []) (v : W)
    (toSend : List Vec) (hv : (x.goto w p).pc v = .postOverlapped toSend ∨
      (x.goto w p).pc v = .postSend toSend) : toSend ≠ [] := by
  simp only [State.goto, Function.update_apply] at hv
  split_ifs at hv
  · exact hp toSend hv
  · exact h.filled v toSend hv

/-- A worker goes on with the vectors it has, or some of them. -/
theorem Placed.goto (h : Placed x made place) {p : Pc Vec} (hpc : y.pc = (x.goto w p).pc)
    (hqueue : y.sendQueue = x.sendQueue) (hflight : y.inFlight = x.inFlight)
    (hsub : p.vectors ⊆ (x.pc w).vectors)
    (hp : ∀ toSend, p = .postOverlapped toSend ∨ p = .postSend toSend → toSend ≠ []) :
    Placed y made place where
  unmade := h.unmade
  queue := hqueue ▸ h.queue
  nodup := hqueue ▸ h.nodup
  worker v u hu := by
    rw [hpc] at hu
    rcases mem_vectors_goto hu with ⟨rfl, hmem⟩ | ⟨-, hmem⟩
    · exact h.worker v u (hsub hmem)
    · exact h.worker v u hmem
  sent := hflight ▸ h.sent
  filled v toSend hv := h.filled_goto hp v toSend (hpc ▸ hv)

theorem Placed.enqueue (h : Placed x made place) (w : W) (data : List UInt8) :
    Placed (x.goto w (.enqueueLoad ⟨made, data⟩)) (made + 1)
      (Function.update place made (.worker w)) := by
  have hold {k : ℕ} {a : Place W} (hk : place k = a) (ha : a ≠ .unmade) :
      Function.update place made (.worker w) k = a := by
    rw [Function.update_of_ne, hk]
    rintro rfl
    exact ha (hk.symm.trans (h.unmade k le_rfl))
  exact {
    unmade := by
      intro k hk
      rw [Function.update_of_ne (by omega)]
      exact h.unmade k (by omega)
    queue := fun v hv => hold (h.queue v hv) (by simp)
    nodup := h.nodup
    worker := by
      intro v u hu
      rcases mem_vectors_goto hu with ⟨rfl, hmem⟩ | ⟨-, hmem⟩
      · rw [List.mem_singleton.mp hmem, Function.update_self]
      · exact hold (h.worker v u hmem) (by simp)
    sent := by
      intro batch hb
      obtain ⟨hne, hplace⟩ := h.sent batch hb
      exact ⟨hne, fun u hu => hold (hplace u hu) (by simp)⟩
    filled := h.filled_goto (by simp) }

theorem Placed.push (h : Placed x made place) {m : Vec} (hpc : x.pc w = .enqueuePush m)
    (pushed : List Vec) :
    Placed { x.goto w .enqueueExchange with sendQueue := x.sendQueue ++ [m], pushed } made
      (moved place (.worker w) .queue) := by
  have hm : place m.no = .worker w := h.worker w m (by rw [hpc]; exact List.mem_singleton_self m)
  exact {
    unmade := fun k hk => moved_of_ne (h.unmade k hk) (by simp)
    queue := by
      intro v hv
      rcases List.mem_append.mp hv with hv | hv
      · exact moved_of_ne (h.queue v hv) (by simp)
      · rw [List.mem_singleton.mp hv]
        exact moved_of_eq hm
    nodup := by
      rw [List.map_append]
      refine List.nodup_append.mpr ⟨h.nodup, List.nodup_singleton _, ?_⟩
      intro k hk j hj hkj
      obtain ⟨v, hv, rfl⟩ := List.mem_map.mp hk
      have hq := h.queue v hv
      rw [hkj, List.mem_singleton.mp hj, hm] at hq
      simp at hq
    worker := by
      intro v u hu
      rcases mem_vectors_goto (w := w) (p := .enqueueExchange) hu with ⟨-, hmem⟩ | ⟨hv, hmem⟩
      · exact absurd hmem List.not_mem_nil
      · exact moved_of_ne (h.worker v u hmem) (by simpa using hv)
    sent := by
      intro batch hb
      obtain ⟨hne, hplace⟩ := h.sent batch hb
      exact ⟨hne, fun u hu => moved_of_ne (hplace u hu) (by simp)⟩
    filled := h.filled_goto (w := w) (p := .enqueueExchange) (by simp) }

theorem Placed.pop (h : Placed x made place) {batch rest : List Vec}
    (hsplit : batch ++ rest = x.sendQueue) :
    Placed { x.goto w (if batch.isEmpty then .postClear else .postOverlapped batch) with
      sendQueue := rest } made
        (fun k => if k ∈ batch.map Vec.no then .worker w else place k) := by
  have hnodup := h.nodup
  rw [← hsplit, List.map_append] at hnodup
  have hold {k : ℕ} {a : Place W} (hk : place k = a) (ha : a ≠ .queue) :
      (if k ∈ batch.map Vec.no then .worker w else place k) = a := by
    rw [if_neg, hk]
    intro hmem
    obtain ⟨v, hv, rfl⟩ := List.mem_map.mp hmem
    have hq := h.queue v (by rw [← hsplit]; exact List.mem_append_left _ hv)
    exact ha (hk.symm.trans hq)
  exact {
    unmade := fun k hk => hold (h.unmade k hk) (by simp)
    queue := by
      intro v hv
      have hq := h.queue v (by rw [← hsplit]; exact List.mem_append_right _ hv)
      rw [if_neg, hq]
      intro hmem
      exact (List.nodup_append.mp hnodup).2.2 _ hmem _ (List.mem_map_of_mem hv) rfl
    nodup := (List.nodup_append.mp hnodup).2.1
    worker := by
      intro v u hu
      rcases mem_vectors_goto (x := x) (w := w) hu with ⟨rfl, hmem⟩ | ⟨-, hmem⟩
      · have hbatch : u ∈ batch := by
          split_ifs at hmem
          · exact absurd hmem List.not_mem_nil
          · exact hmem
        exact if_pos (List.mem_map_of_mem hbatch)
      · exact hold (h.worker v u hmem) (by simp)
    sent := by
      intro sent hb
      obtain ⟨hne, hplace⟩ := h.sent sent hb
      exact ⟨hne, fun u hu => hold (hplace u hu) (by simp)⟩
    filled := by
      apply h.filled_goto (w := w) (p := if batch.isEmpty then .postClear else .postOverlapped batch)
      intro toSend hp
      split_ifs at hp with hempty
      · simp at hp
      · simp only [Pc.postOverlapped.injEq, or_false] at hp
        rintro rfl
        simp [hp] at hempty }

/-- The batch is handed to `WSASend`, and destroyed with the worker's `toSend`. -/
theorem Placed.send (h : Placed x made place) {toSend : List Vec} (hpc : x.pc w = .postSend toSend)
    (handed : List (List Vec)) :
    Placed { x.goto w .idle with handed, inFlight := x.inFlight ++ [toSend] } made
      (moved place (.worker w) .destroyed) where
  unmade k hk := moved_of_ne (h.unmade k hk) (by simp)
  queue v hv := moved_of_ne (h.queue v hv) (by simp)
  nodup := h.nodup
  worker v u hu := by
    rcases mem_vectors_goto (w := w) (p := .idle) hu with ⟨-, hmem⟩ | ⟨hv, hmem⟩
    · exact absurd hmem List.not_mem_nil
    · exact moved_of_ne (h.worker v u hmem) (by simpa using hv)
  sent batch hb := by
    rcases List.mem_append.mp hb with hb | hb
    · obtain ⟨hne, hplace⟩ := h.sent batch hb
      exact ⟨hne, fun u hu => moved_of_ne (hplace u hu) (by simp)⟩
    · rw [List.mem_singleton.mp hb]
      exact ⟨h.filled w toSend (.inr hpc),
        fun u hu => moved_of_eq (h.worker w u (by rw [hpc]; exact hu))⟩
  filled := h.filled_goto (w := w) (p := .idle) (by simp)

/-! ### Every step -/

theorem Placed.next (h : Placed x made place) {ok : Bool} (hy : next x w ok = some y) :
    ∃ place', Placed y made place' := by
  unfold SendPath.next at hy
  cases hpc : x.pc w with
  | idle => simp [hpc] at hy
  | enqueueLoad m =>
    simp only [hpc, Option.some.injEq] at hy
    subst hy
    refine ⟨place, h.goto rfl rfl rfl ?_ ?_⟩
    · rw [hpc]
      split_ifs
      · exact List.nil_subset _
      · exact List.Subset.refl _
    · split_ifs <;> simp
  | enqueuePush m =>
    simp only [hpc, Option.some.injEq] at hy
    subst hy
    exact ⟨_, h.push hpc _⟩
  | enqueueExchange =>
    simp only [hpc, Option.some.injEq] at hy
    subst hy
    refine ⟨place, h.goto (w := w) rfl rfl rfl ?_ ?_⟩
    · split_ifs <;> exact List.nil_subset _
    · split_ifs <;> simp
  | postLoad =>
    simp only [hpc, Option.some.injEq] at hy
    subst hy
    refine ⟨place, h.goto rfl rfl rfl ?_ ?_⟩
    · split_ifs <;> exact List.nil_subset _
    · split_ifs <;> simp
  | postPop =>
    simp only [hpc, Option.some.injEq] at hy
    subst hy
    exact ⟨_, h.pop (popBatch_append x.sendQueue)⟩
  | postClear =>
    simp only [hpc, Option.some.injEq] at hy
    subst hy
    exact ⟨place, h.goto (w := w) (p := .idle) rfl rfl rfl (List.nil_subset _) (by simp)⟩
  | postOverlapped toSend =>
    simp only [hpc, Option.some.injEq] at hy
    subst hy
    refine ⟨place, h.goto rfl rfl rfl ?_ fun toSend' hp => ?_⟩
    · rw [hpc]
      exact List.Subset.refl _
    · obtain rfl : toSend = toSend' := by simpa using hp
      exact h.filled w toSend (.inl hpc)
  | postSend toSend =>
    simp only [hpc] at hy
    split_ifs at hy <;> simp only [Option.some.injEq] at hy <;> subst hy
    · exact ⟨_, h.send hpc _⟩
    · exact ⟨place, h.goto (w := w) (p := .closeExchange true) rfl rfl rfl (List.nil_subset _) (by simp)⟩
  | closeExchange byPostSend =>
    simp only [hpc, Option.some.injEq] at hy
    subst hy
    refine ⟨place, h.goto (w := w) rfl rfl rfl ?_ ?_⟩
    · split_ifs <;> exact List.nil_subset _
    · split_ifs <;> simp
  | closeRest byPostSend =>
    simp only [hpc, Option.some.injEq] at hy
    subst hy
    exact ⟨place, h.goto (w := w) (p := .idle) rfl rfl rfl (List.nil_subset _) (by simp)⟩

theorem Placed.act (h : Placed x made place) {a : Act W Vec} (ha : ∀ w m, a ≠ .enqueue w m)
    (hy : step x a = some y) : ∃ place', Placed y made place' := by
  cases a with
  | accept =>
    simp only [SendPath.step] at hy
    split_ifs at hy
    simp only [Option.some.injEq] at hy
    subst hy
    exact ⟨place, ⟨h.unmade, h.queue, h.nodup, h.worker, h.sent, h.filled⟩⟩
  | enqueue w m => exact absurd rfl (ha w m)
  | complete w i =>
    simp only [SendPath.step] at hy
    split_ifs at hy
    simp only [Option.some.injEq] at hy
    subst hy
    have hgoto := h.goto (w := w) (p := .postLoad) rfl rfl rfl (List.nil_subset _) (by simp)
    exact ⟨place, ⟨hgoto.unmade, hgoto.queue, hgoto.nodup, hgoto.worker,
      fun batch hb => hgoto.sent batch (List.mem_of_mem_eraseIdx hb), hgoto.filled⟩⟩
  | close w =>
    simp only [SendPath.step] at hy
    split_ifs at hy
    simp only [Option.some.injEq] at hy
    subst hy
    exact ⟨place,
      h.goto (w := w) (p := .closeExchange false) rfl rfl rfl (List.nil_subset _) (by simp)⟩
  | next w ok => exact h.next hy

/-- Only `EnqueueSend` makes a vector. -/
theorem Memory.step_path {x y : Memory W} {a : Memory.Act W} (hy : x.step a = some y) :
    (∃ w data, SendPath.step x.path (.enqueue w ⟨x.made, data⟩) = some y.path ∧
      y.made = x.made + 1) ∨
    ((∃ b, (∀ w m, b ≠ .enqueue w m) ∧ SendPath.step x.path b = some y.path) ∧ y.made = x.made) := by
  cases a with
  | accept =>
    obtain ⟨path, hpath, hend⟩ := Option.bind_eq_some_iff.mp hy
    obtain rfl := Option.some.inj hend
    exact .inr ⟨⟨_, by simp, hpath⟩, rfl⟩
  | enqueue w data =>
    obtain ⟨path, hpath, hend⟩ := Option.bind_eq_some_iff.mp hy
    obtain rfl := Option.some.inj hend
    exact .inl ⟨w, data, hpath, rfl⟩
  | complete w i =>
    obtain ⟨path, hpath, hend⟩ := Option.bind_eq_some_iff.mp hy
    obtain rfl := Option.some.inj hend
    exact .inr ⟨⟨_, by simp, hpath⟩, rfl⟩
  | close w =>
    obtain ⟨path, hpath, hend⟩ := Option.bind_eq_some_iff.mp hy
    obtain rfl := Option.some.inj hend
    exact .inr ⟨⟨_, by simp, hpath⟩, rfl⟩
  | next w result =>
    obtain ⟨path, hpath, hend⟩ := Option.bind_eq_some_iff.mp hy
    obtain rfl := Option.some.inj hend
    exact .inr ⟨⟨_, by simp, hpath⟩, rfl⟩

theorem Placed.step {x y : Memory W} (h : Placed x.path x.made place) {a : Memory.Act W}
    (hy : x.step a = some y) : ∃ place', Placed y.path y.made place' := by
  rcases Memory.step_path hy with ⟨w, data, hpath, hmade⟩ | ⟨⟨b, hb, hpath⟩, hmade⟩
  · simp only [SendPath.step] at hpath
    split_ifs at hpath
    rw [hmade, ← Option.some.inj hpath]
    exact ⟨_, h.enqueue w data⟩
  · rw [hmade]
    exact h.act hb hpath

/-! ### Runs -/

theorem placed_run {acts : List (Memory.Act W)} {x : Memory W}
    (h : Exec Memory.step (fun _ _ => True) Memory.init acts x) :
    ∃ place, Placed x.path x.made place :=
  Exec.invariant (P := fun x : Memory W => ∃ place, Placed x.path x.made place)
    (fun _ _ _ ⟨_, hx⟩ _ hy => hx.step hy) h ⟨_, placed_init⟩

/-- In no interleaving is a vector of an outstanding send held, so that what is being sent
is alive only where nothing is being sent. -/
theorem sent_alive_iff {acts : List (Memory.Act W)} {x : Memory W}
    (h : Exec Memory.step (fun _ _ => True) Memory.init acts x) :
    (∀ batch ∈ x.outstanding, ∀ v ∈ batch, ¬ x.Holds v) ∧ (x.Alive ↔ x.outstanding = []) := by
  obtain ⟨place, hx⟩ := placed_run h
  have hdestroyed : ∀ batch ∈ x.outstanding, ∀ v ∈ batch, ¬ x.Holds v :=
    fun batch hb v hv => hx.not_holds (Memory.mem_inFlight hb) hv
  refine ⟨hdestroyed, ?_, ?_⟩
  · intro halive
    by_contra hsome
    obtain ⟨batch, hb⟩ := List.exists_mem_of_ne_nil _ hsome
    obtain ⟨v, hv⟩ := List.exists_mem_of_ne_nil _ (hx.sent batch (Memory.mem_inFlight hb)).1
    exact hdestroyed batch hb v hv (halive batch hb v hv)
  · intro hnone batch hb
    rw [hnone] at hb
    exact absurd hb List.not_mem_nil

/-- One message on a fresh connection. -/
def sendOne (result : SendResult) : List (Memory.Act (Fin 1)) :=
  .accept :: .enqueue 0 [1, 2, 3] :: List.replicate 7 (.next 0 result)

theorem sent_destroyed :
    ∃ (acts : List (Memory.Act (Fin 1))) (x : Memory (Fin 1)),
      Exec Memory.step (fun _ _ => True) Memory.init acts x ∧ ¬ x.Alive := by
  obtain ⟨x, hrun, hbatch, hqueue, hpc⟩ : ∃ x : Memory (Fin 1),
      Exec Memory.step (fun _ _ => True) Memory.init (sendOne .pending) x ∧
        x.outstanding = [[⟨0, [1, 2, 3]⟩]] ∧ x.path.sendQueue = [] ∧ x.path.pc 0 = .idle :=
    Exec.exists_of_runIf (by decide)
  refine ⟨_, x, hrun, ?_⟩
  intro halive
  have hholds := halive _ (by rw [hbatch]; exact List.mem_singleton_self _) _ (List.mem_singleton_self _)
  rcases hholds with hq | ⟨w, hw⟩
  · rw [hqueue] at hq
    exact absurd hq List.not_mem_nil
  · rw [Subsingleton.elim w 0, hpc] at hw
    exact absurd hw List.not_mem_nil

theorem sent_alive_done :
    ∃ x : Memory (Fin 1), x.path.inFlight = [[⟨0, [1, 2, 3]⟩]] ∧ x.Alive := by
  obtain ⟨x, hrun, hflight, hnone⟩ : ∃ x : Memory (Fin 1),
      Exec Memory.step (fun _ _ => True) Memory.init (sendOne .done) x ∧
        x.path.inFlight = [[⟨0, [1, 2, 3]⟩]] ∧ x.outstanding = [] :=
    Exec.exists_of_runIf (by decide)
  exact ⟨x, hflight, (sent_alive_iff hrun).2.mpr hnone⟩

end IocpChat.SendPath
