import IocpChat.Proofs.Bookkeeping
import IocpChat.Spec.Generations

/-! Whose messages go out on a connection: those pushed for it, as long as an accept
never takes a Session with messages of the previous connection in its queue. -/

namespace IocpChat

open SendPath (popBatch popBatch_append)
open Runs (Exec)

variable {env : Env} {σ σ' : Server}

/-- The batch was pushed for another connection, in part. -/
def Effect.leaks : Effect → Bool
  | .wsaSend _ k _ batch _ => batch.any fun m => m.conn ≠ k
  | _ => false

theorem leaks_of_not_own {e : Effect} (he : e.leaks = true) (hmem : e ∈ σ.trace) :
    ¬ OwnMessages σ := by
  intro hown
  cases e with
  | wsaSend s k sock batch ok =>
    obtain ⟨m, hm, hk⟩ := List.any_eq_true.mp he
    exact of_decide_eq_true hk (hown s k sock batch ok hmem m hm)
  | _ => simp [Effect.leaks] at he

/-- What is queued for an open Session was pushed for its connection. -/
structure Tagged (σ : Server) : Prop where
  queued : ∀ s, σ.Open s → ∀ m ∈ (σ.sessions s).sendQueue, m.conn = (σ.sessions s).id
  sent : OwnMessages σ

theorem mem_popBatch_fst {m : Msg} {queue : List Msg} (h : m ∈ (popBatch queue).1) : m ∈ queue := by
  rw [← popBatch_append queue]
  exact List.mem_append_left _ h

theorem mem_popBatch_snd {m : Msg} {queue : List Msg} (h : m ∈ (popBatch queue).2) : m ∈ queue := by
  rw [← popBatch_append queue]
  exact List.mem_append_right _ h

theorem Tagged.emit (h : Tagged σ) {e : Effect} (he : e.leaks = false) : Tagged (σ.emit e) where
  queued := h.queued
  sent s k sock batch ok hmem := by
    rcases List.mem_append.mp hmem with hmem | hmem
    · exact h.sent s k sock batch ok hmem
    · rw [← List.mem_singleton.mp hmem] at he
      intro m hm
      by_contra hne
      have := List.any_eq_false.mp he m hm
      simp [hne] at this

/-- Only the queue of an open Session matters. -/
theorem Tagged.set (h : Tagged σ) {s : ℕ} {x : Session}
    (hx : x.closing = false → x.id ≠ 0 → ∀ m ∈ x.sendQueue, m.conn = x.id) : Tagged (σ.set s x) where
  queued t ho := by
    rw [σ.open_set] at ho
    rw [σ.sessions_set]
    split_ifs at ho ⊢
    · exact hx ho.1 ho.2
    · exact h.queued t ho
  sent := h.sent

theorem Tagged.close (h : Tagged σ) (s : ℕ) : Tagged (closeSession s σ) := by
  cases hc : (σ.sessions s).closing with
  | true =>
    rw [closeSession_of_closing hc]
    exact h
  | false =>
    refine ⟨fun t ho => ?_, ?_⟩
    · obtain ⟨hts, ho⟩ := (open_closeSession hc t).mp ho
      rw [sessions_closeSession hc, if_neg hts]
      exact h.queued t ho
    · unfold OwnMessages
      rw [trace_closeSession hc]
      exact (h.emit (e := .closed s (σ.sessions s).id) rfl).sent

theorem Tagged.handed (h : Tagged σ) {t : ℕ} (ho : σ.Open t) (ok : Bool) :
    Tagged (σ.handed t ok) := by
  have hpop : Tagged (σ.popSend t) :=
    h.set fun _ _ m hm => h.queued t ho m (mem_popBatch_snd hm)
  apply hpop.emit
  simp only [Effect.leaks, List.any_eq_false]
  intro m hm
  simpa using h.queued t ho m (mem_popBatch_fst hm)

theorem Tagged.act (h : Tagged σ) {c : Option ℕ} (hact : Act env c (fun e => e.isNote = true) σ σ') :
    Tagged σ' := by
  cases hact with
  | note e he =>
    apply h.emit
    cases e <;> first | rfl | simp [Effect.isNote] at he
  | push t data ho =>
    apply h.set
    intro _ _ m hm
    rcases List.mem_append.mp hm with hm | hm
    · exact h.queued t ho m hm
    · rw [List.mem_singleton.mp hm]
  | claim t ho => exact h.set fun _ _ => h.queued t ho
  | idle t ho hq => exact h.set fun _ _ => h.queued t ho
  | hand t ho => exact ⟨(h.handed ho true).queued, (h.handed ho true).sent⟩
  | fail t ho hf => exact (h.handed ho false).close t
  | close s hs ho => exact h.close s

theorem Tagged.move (h : Tagged σ) (hm : Move env EmptyQueue σ σ') : Tagged σ' := by
  cases hm with
  | work hw =>
    cases hw with
    | act hact => exact h.act hact
    | ring r => exact h.set fun hc hid => h.queued _ ⟨hc, hid⟩
    | mark e he =>
      apply h.emit
      cases e <;> first | rfl | simp [Effect.isRead] at he
  | recvPosted _ s ho =>
    have hemit := h.emit (e := .wsaRecv s (σ.sessions s).id true) rfl
    exact ⟨hemit.queued, hemit.sent⟩
  | recvRefused _ s ho => exact (h.emit rfl).close s
  | side _ acc socks => exact ⟨h.queued, h.sent⟩
  | connect _ s free sock hf hC =>
    rw [connect_eq]
    have hset : Tagged (σ.set s (σ.connected s sock)) := by
      apply h.set
      intro _ _ m hm
      rw [show (σ.connected s sock).sendQueue = [] from hC] at hm
      contradiction
    have hemit := hset.emit (e := .accepted s σ.sessionIdGen) rfl
    exact ⟨hemit.queued, hemit.sent⟩
  | fill _ i op data hop hd hlen => exact ⟨h.queued, h.sent⟩
  | dequeueRecv _ i => exact ⟨h.queued, h.sent⟩
  | dequeueSend _ i => exact ⟨h.queued, h.sent⟩

theorem Tagged.moves (h : Tagged σ) (hm : Moves env EmptyQueue σ σ') : Tagged σ' := by
  induction hm with
  | refl => exact h
  | tail _ hmove ih => exact ih.move hmove

theorem tagged_new (maxSessions : ℕ) : Tagged (.new maxSessions) where
  queued s ho := absurd rfl ho.2
  sent s k sock batch ok hmem := by simp [Server.new] at hmem

/-- If every accept finds an empty queue, no message leaks into another connection. -/
theorem messages_own {maxSessions n fuel : ℕ} {σ₀ σ : Server} {es : List Event}
    (hstart : start env maxSessions n fuel = some σ₀)
    (h : Exec (step env) (AcceptsFrom EmptyQueue) σ₀ es σ) : OwnMessages σ := by
  have hrun : Tagged σ := by
    refine invariant_run (P := Tagged) hstart (fun acc socks => ?_) ?_ h
    · exact ⟨(tagged_new maxSessions).queued, (tagged_new maxSessions).sent⟩
    · intro σ e σ' hb ht hok hstep
      exact ht.moves (step_moves hb.grounded (hok.all fun _ _ hC => hC) hstep)
  exact hrun.sent

/-- Client 1 asks for the user count while its greeting is in flight and hangs
up; its Session goes to client 2. -/
def reuse : List Event :=
  [.accept 0 1, .fill 0 [4, 0, 13, 0], .recv 0, .fill 0 [], .recv 0, .send 0, .accept 0 1]

theorem messages_leak :
    ∃ (maxSessions n fuel : ℕ) (σ₀ σ : Server) (es : List Event),
      start .calm maxSessions n fuel = some σ₀ ∧
        Exec (step .calm) (fun _ _ => True) σ₀ es σ ∧ ¬ OwnMessages σ := by
  obtain ⟨σ₀, σ, hstart, hrun, hleak⟩ : ∃ σ₀ σ, start .calm 1 1 1 = some σ₀ ∧
      Exec (step .calm) (fun _ _ => True) σ₀ reuse σ ∧ σ.trace.any Effect.leaks = true :=
    exists_run (by decide +kernel)
  obtain ⟨e, hmem, he⟩ := List.any_eq_true.mp hleak
  exact ⟨1, 1, 1, σ₀, σ, reuse, hstart, hrun, leaks_of_not_own he hmem⟩

/-- Here the reply is sent before the client hangs up. -/
def politeReuse : List Event :=
  [.accept 0 1, .send 0, .fill 0 [4, 0, 13, 0], .recv 0, .send 0, .fill 0 [], .recv 0,
    .accept 0 1, .enqueueSend 0 [1, 2, 3]]

theorem messages_own_polite :
    ∃ σ : Server, σ.tabled = [0] ∧ σ.sessionIdGen = 3 ∧ OwnMessages σ := by
  obtain ⟨σ₀, σ, hstart, hrun, htabled, hgen⟩ : ∃ σ₀ σ, start .calm 1 1 1 = some σ₀ ∧
      Exec (step .calm) (AcceptsFrom EmptyQueue) σ₀ politeReuse σ ∧
        σ.tabled = [0] ∧ σ.sessionIdGen = 3 := exists_run (by decide +kernel)
  exact ⟨σ, htabled, hgen, messages_own hstart hrun⟩

end IocpChat
