import IocpChat.Lib.Tally
import IocpChat.Proofs.Awake

/-! What is queued for an open Session goes out: the completions of sends alone empty all the
queues, and how many it takes at most is known beforehand. -/

namespace IocpChat

open Runs (Exec)
open SendPath (popBatch)

variable {env : Env} {max s : ℕ} {σ τ σ' : Server}

/-! ### How long it takes -/

/-- A `PostSend` makes no more completions than it takes batches. -/
theorem pendingSends_postSend (env : Env) (hs : s < max) :
    (postSend env s σ).pendingSends max ≤ σ.pendingSends max := by
  have hchange {υ : Server} (h : ∀ t, t ≠ s → υ.sessions t = σ.sessions t) :=
    sum_change (f := σ.batches) (g := υ.batches) (Finset.mem_range.mpr hs) fun t ht => by
      rw [Server.batches, Server.batches, h t ht]
  rcases postSend_cases env s σ with ⟨hc, he⟩ | ⟨hc, ⟨hq, he⟩ | ⟨hq, he | he⟩⟩ <;> rw [he]
  · have hsum := hchange (υ := σ.setSending s false) fun t ht => by
      rw [σ.sessions_setSending, if_neg ht]
    have hsame : (σ.setSending s false).batches s = σ.batches s := by
      rw [Server.batches, σ.sessions_setSending, if_pos rfl]
      rfl
    have hsends : (σ.setSending s false).sends = σ.sends := rfl
    rw [Server.pendingSends, Server.pendingSends, hsends]
    omega
  · -- the batch that goes into flight is one less to be made
    have hsum := hchange (υ := σ.posted s) fun t ht => by rw [σ.sessions_posted, if_neg ht]
    have hlen : (popBatch (σ.sessions s).sendQueue).2.length =
        (σ.sessions s).sendQueue.length - 16 := by
      rw [popBatch, SendPath.popLoop_eq, List.length_drop]
    have hpos := List.length_pos_iff.mpr hq
    have hbefore : σ.batches s = ((σ.sessions s).sendQueue.length + 15) / 16 := by
      rw [Server.batches, hc]
      rfl
    have hafter : (σ.posted s).batches s = ((σ.sessions s).sendQueue.length - 16 + 15) / 16 := by
      rw [Server.batches, σ.sessions_posted, if_pos rfl]
      dsimp only
      rw [hc, hlen]
      rfl
    have hsends : (σ.posted s).sends.length = σ.sends.length + 1 := List.length_append
    rw [Server.pendingSends, Server.pendingSends, hsends]
    omega
  · have hc' : ((σ.handed s false).sessions s).closing = false := by
      rw [Server.handed, Server.sessions_emit, Server.popSend, Server.sessions_set_self]
      exact hc
    have hsum := hchange (υ := closeSession s (σ.handed s false)) fun t ht => by
      rw [sessions_closeSession hc', if_neg ht, Server.handed, Server.sessions_emit, Server.popSend,
        σ.sessions_set, if_neg ht]
    have hnone : (closeSession s (σ.handed s false)).batches s = 0 := by
      rw [Server.batches, sessions_closeSession hc', if_pos rfl]
      rfl
    have hsends : (closeSession s (σ.handed s false)).sends = σ.sends := closeSession_sends s _
    rw [Server.pendingSends, Server.pendingSends, hsends]
    omega

theorem pendingSends_step (hb : Books max σ) {e : Event} (he : e.completesSend = true)
    (hstep : step env σ e = some σ') : σ'.pendingSends max < σ.pendingSends max := by
  cases step_cases hstep with
  | @send i op hop =>
    have hmax : op.sess < max := hb.used _ (hb.sends op (List.mem_of_getElem? hop))
    have hpost := pendingSends_postSend env (σ := σ.dequeueSend i) hmax
    have hlen : (σ.dequeueSend i).sends.length + 1 = σ.sends.length :=
      List.length_eraseIdx_add_one (List.getElem?_eq_some_iff.mp hop).1
    have hbatches : (σ.dequeueSend i).batches = σ.batches := rfl
    have hdeq : (σ.dequeueSend i).pendingSends max + 1 = σ.pendingSends max := by
      rw [Server.pendingSends, Server.pendingSends, hbatches]
      omega
    exact Nat.lt_of_le_of_lt hpost (by omega)
  | _ => contradiction

theorem mailed_sends {ok : Server → Event → Prop} {fs : List Event}
    (hok : ∀ σ e, ok σ e → e.completesSend = true) (hb : Books max σ)
    (h : Exec (step env) ok σ fs τ) : Mailed nothing σ τ := by
  have hrun := h.invariant (P := fun υ => Books max υ ∧ Mailed nothing σ υ)
    (by
      intro υ e υ' ⟨hbυ, hm⟩ hallowed hstep
      refine ⟨hbυ.step hstep, ?_⟩
      have hsend := hok υ e hallowed
      cases step_cases hstep with
      | @send i op hop =>
        have hdeq : Mailed nothing υ (υ.dequeueSend i) := (mailed_refl υ).as rfl rfl rfl
        have hid : ((υ.dequeueSend i).sessions op.sess).id ≠ 0 :=
          hbυ.sends op (List.mem_of_getElem? hop)
        exact hm.before (hdeq.before (mailed_postSend env hid))
      | _ => contradiction)
    ⟨hb, mailed_refl σ⟩
  exact hrun.2

/-- Wherever a run has come, the completions of sends can go on until none is in flight, and
this takes at most as many as are pending; then everything that waited in the queue of a
connection that is still open was handed to `WSASend`, in its order. -/
theorem sends_drain {maxSessions n fuel : ℕ} {σ₀ σ τ : Server} {es fs : List Event}
    (hstart : start env maxSessions n fuel = some σ₀)
    (hrun : Exec (step env) (fun _ _ => True) σ₀ es σ)
    (hsends : Exec (step env) (fun _ e => e.completesSend = true) σ fs τ) :
    fs.length ≤ σ.pendingSends maxSessions ∧
      (τ.sends ≠ [] → ∃ e υ, e.completesSend = true ∧ step env τ e = some υ) ∧
      (τ.sends = [] → ∀ s, τ.Open s → (τ.sessions s).sending = false ∧
        (τ.sessions s).sendQueue = [] ∧ τ.handedTo s (σ.sessions s).id =
          σ.handedTo s (σ.sessions s).id ++ (σ.sessions s).sendQueue) := by
  have hb := books_run hstart hrun
  have hlen := hsends.length_le (P := Books maxSessions)
    (m := fun υ => υ.pendingSends maxSessions)
    (fun _ _ _ hbυ hok hstep => ⟨hbυ.step hstep, pendingSends_step hbυ hok hstep⟩) hb
  have hawake : Awake τ := hsends.invariant (P := fun υ => Books maxSessions υ ∧ Awake υ)
    (fun _ _ _ ⟨hbυ, hw⟩ _ hstep => ⟨hbυ.step hstep, hw.step hbυ hstep⟩)
    ⟨hb, awake_run hstart hrun⟩ |>.2
  have hmailed : Mailed nothing σ τ := mailed_sends (fun _ _ hok => hok) hb hsends
  refine ⟨by omega, ?_, ?_⟩
  · intro hne
    obtain ⟨op, ops, hops⟩ := List.exists_cons_of_ne_nil hne
    have hop : τ.sends[0]? = some op := by rw [hops]; rfl
    refine ⟨.send 0, sendCompletion env op.sess (τ.dequeueSend 0), rfl, ?_⟩
    simp only [step, hop]
  · intro hnil s ho
    have hquiet : (τ.sessions s).sending = false := by
      by_contra hsending
      rw [Bool.not_eq_false] at hsending
      obtain ⟨op, hop, -⟩ := (hawake s ho).busy hsending
      rw [hnil] at hop
      contradiction
    have hqueue := (hawake s ho).idle hquiet
    have hkept := hmailed.kept s ho
    rw [Server.mail, hqueue, List.append_nil, hmailed.id] at hkept
    exact ⟨hquiet, hqueue, hkept.trans (List.append_nil _)⟩

theorem sends_drain_conversation : ∃ σ τ : Server, (σ.sessions 1).sendQueue.length = 1 ∧
    τ.handedTo 1 1 = σ.handedTo 1 1 ++ (σ.sessions 1).sendQueue := by
  obtain ⟨σ₀, σ, hstart, hrun, hqueue, hid, hrest⟩ : ∃ σ₀ σ, start .calm 2 2 1 = some σ₀ ∧
      Exec (step .calm) (fun _ _ => True) σ₀ conversation σ ∧
        (σ.sessions 1).sendQueue.length = 1 ∧ (σ.sessions 1).id = 1 ∧
        (Runs.runIf (step .calm) (fun _ e => e.completesSend = true) σ
          (List.replicate 4 (.send 0))).any (fun τ => decide (τ.sends = [] ∧
            (τ.sessions 1).closing = false ∧ (τ.sessions 1).id = 1)) = true :=
    exists_run (by decide +kernel)
  obtain ⟨τ, hsends, hnil, hclosing, hid'⟩ := Exec.exists_of_runIf
    (P := fun τ : Server => τ.sends = [] ∧ (τ.sessions 1).closing = false ∧ (τ.sessions 1).id = 1)
    hrest
  have hdrained := (sends_drain hstart hrun hsends).2.2 hnil 1 ⟨hclosing, by simp [hid']⟩
  rw [hid] at hdrained
  exact ⟨σ, τ, hqueue, hdrained.2.2⟩

/-- Whenever no send is in flight, every open connection was handed all that it was told in
the room, if the accepts found the queues empty. -/
theorem delivered_when_quiet {maxSessions n fuel : ℕ} {σ₀ σ : Server} {es : List Event}
    (hstart : start env maxSessions n fuel = some σ₀)
    (h : Exec (step env) (fun σ e => e.own = true ∧ AcceptsFrom EmptyQueue σ e) σ₀ es σ)
    (hquiet : σ.sends = []) (ho : σ.Open s) :
    σ.handedTo s (σ.sessions s).id = (ChatRoom.of σ.trace).mail (s, (σ.sessions s).id) := by
  have hqueue : (σ.sessions s).sendQueue = [] := by
    refine (awake_run hstart h s ho).idle ?_
    by_contra hsending
    rw [Bool.not_eq_false] at hsending
    obtain ⟨op, hop, -⟩ := (awake_run hstart h s ho).busy hsending
    rw [hquiet] at hop
    contradiction
  have hserves := (owes_run (fun _ _ hok => hok.1) hstart h).serves (books_run hstart h)
  have htagged : Tagged σ := tagged_run (fun _ _ hok => hok.2) hstart h
  have hexact := (hserves.exact htagged s (σ.sessions s).id).2 ho rfl
  rwa [hqueue, List.append_nil] at hexact

theorem delivered_when_quiet_conversation : ∃ σ : Server, (σ.handedTo 1 1).length = 2 ∧
    σ.handedTo 1 1 = (ChatRoom.of σ.trace).mail (1, 1) := by
  obtain ⟨σ₀, σ, hstart, hrun, hquiet, hclosing, hid, hlen⟩ : ∃ σ₀ σ, start .calm 2 2 1 = some σ₀ ∧
      Exec (step .calm) (fun σ e => e.own = true ∧ AcceptsFrom EmptyQueue σ e) σ₀
        (conversation ++ List.replicate 4 (.send 0)) σ ∧ σ.sends = [] ∧
        (σ.sessions 1).closing = false ∧ (σ.sessions 1).id = 1 ∧ (σ.handedTo 1 1).length = 2 :=
    exists_run (by decide +kernel)
  have hall := delivered_when_quiet hstart hrun hquiet ⟨hclosing, by simp [hid]⟩
  rw [hid] at hall
  exact ⟨σ, hlen, hall⟩

end IocpChat
