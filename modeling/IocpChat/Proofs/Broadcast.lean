import IocpChat.Proofs.Silence

/-! A broadcast, seen by each Session. What is done for one of them changes nothing that
another one sees, so that each finds the server as it was before the broadcast: it gets the
message behind what was queued for it, or is closed because its own `WSASend` failed. -/

namespace IocpChat

open Relation (ReflTransGen)
open Runs (Exec)
open SendPath (popBatch popBatch_append)

variable {env : Env} {max s t : ℕ} {x y : Session} {ops ops' : List SendOp} {es es' : List Effect}
  {data : List UInt8} {σ τ υ : Server}

theorem Spared.refl (t : ℕ) (σ : Server) : Spared t σ σ where
  session := rfl
  entry k := by simp
  sends := (List.append_nil _).symm
  trace k := by rw [List.append_nil]
  mem := rfl

theorem Becomes.trans (h : Becomes t σ τ x ops es) (h' : Becomes t τ υ y ops' es') :
    Becomes t σ υ y (ops ++ ops') (es ++ es') where
  session := h'.session
  entry k := by
    rw [h'.entry, h.entry, and_assoc]
    simp only [List.mem_append, not_or, forall_and]
  sends := by rw [h'.sends, h.sends, List.append_assoc]
  trace k := by
    rw [h'.trace, List.filter_append, h.trace, List.filter_append, List.filter_append,
      List.filter_append, List.append_assoc]
  mem := h'.mem.trans h.mem

theorem Becomes.after (h : Becomes t τ υ x ops es) (h' : Spared t σ τ) : Becomes t σ υ x ops es :=
  h'.trans h

theorem Becomes.before (h : Becomes t σ τ x ops es) (h' : Spared t τ υ) :
    Becomes t σ υ x ops es := by
  have hboth := h.trans h'
  rwa [h.session, List.append_nil, List.append_nil] at hboth

theorem Spared.trans (h : Spared t σ τ) (h' : Spared t τ υ) : Spared t σ υ := h.before h'

/-- What concerns other Sessions need not be told. -/
theorem Becomes.forget (h : Becomes t σ τ x ops es)
    (hes : ∀ e ∈ es, ∀ k, e.concerns t k = false) : Becomes t σ τ x ops [] where
  session := h.session
  entry k := by
    have hclosed : ∀ j, Effect.closed t j ∉ es := by
      intro j hj
      have hno := hes _ hj j
      simp [Effect.concerns] at hno
    simp only [h.entry, hclosed, List.not_mem_nil, not_false_eq_true, implies_true]
  sends := h.sends
  trace k := by
    have hnone : es.filter (Effect.concerns t k) = [] := by
      apply List.filter_eq_nil_iff.mpr
      intro e he
      rw [hes e he k]
      exact Bool.false_ne_true
    rw [h.trace, List.filter_append, List.append_nil, hnone, List.append_nil]
  mem := h.mem

/-! ### What the parts of `EnqueueSend` change -/

theorem becomes_set (σ : Server) (s t : ℕ) (x : Session) :
    Becomes t σ (σ.set s x) (if t = s then x else σ.sessions t) [] [] where
  session := σ.sessions_set s t x
  entry k := by simp [Server.set]
  sends := (List.append_nil _).symm
  trace k := by rw [List.append_nil]; rfl
  mem := rfl

theorem becomes_emit (σ : Server) (t : ℕ) (e : Effect) (he : ∀ j, e ≠ .closed t j) :
    Becomes t σ (σ.emit e) (σ.sessions t) [] [e] where
  session := rfl
  entry k := by
    have hclosed : ∀ j, Effect.closed t j ∉ [e] := by
      intro j hj
      exact he j (List.mem_singleton.mp hj).symm
    simp [hclosed, Server.emit]
  sends := (List.append_nil _).symm
  trace _ := rfl
  mem := rfl

theorem becomes_send (σ : Server) (t : ℕ) (op : SendOp) :
    Becomes t σ { σ with sends := σ.sends ++ [op] } (σ.sessions t)
      (if op.sess = t then [op] else []) [] where
  session := rfl
  entry k := by simp
  sends := by
    rw [List.filter_append]
    by_cases h : op.sess = t
    · simp [h]
    · simp [h]
  trace k := by rw [List.append_nil]
  mem := rfl

theorem becomes_close (hb : Books max σ) (ho : σ.Open s) (t : ℕ) :
    Becomes t σ (closeSession s σ)
      (if t = s then { σ.sessions s with closing := true, rxBuf := none } else σ.sessions t) []
      [.closed s (σ.sessions s).id] where
  session := sessions_closeSession ho.1 t
  entry k := by
    have htable : (closeSession s σ).sessionTable = σ.sessionTable.erase (σ.sessions s).id := by
      simp [closeSession, ho.1]
    have hown := (hb.table (σ.sessions s).id s).mpr ⟨ho, rfl⟩
    rw [htable]
    by_cases hts : t = s
    · subst hts
      refine iff_of_false ?_ fun h => h.2 _ (List.mem_singleton_self _)
      intro hk
      by_cases hkid : k = (σ.sessions t).id
      · rw [hkid, AList.lookup_erase] at hk
        cases hk
      · rw [AList.lookup_erase_ne hkid] at hk
        exact hkid ((hb.table k t).mp hk).2.symm
    · have hclosed : ∀ j, Effect.closed t j ∉ [Effect.closed s (σ.sessions s).id] := by
        intro j hj
        exact hts (Effect.closed.inj (List.mem_singleton.mp hj)).1
      simp only [hclosed, not_false_eq_true, implies_true, and_true]
      by_cases hkid : k = (σ.sessions s).id
      · rw [hkid, AList.lookup_erase, hown]
        refine iff_of_false (Option.some_ne_none t).symm ?_
        intro hst
        exact hts (Option.some.inj hst).symm
      · rw [AList.lookup_erase_ne hkid]
  sends := by rw [closeSession_sends, List.append_nil]
  trace k := by rw [trace_closeSession ho.1]
  mem := closeSession_mem s σ

/-! ### What `EnqueueSend` changes -/

theorem becomes_batched (σ : Server) (t : ℕ) (data : List UInt8) (ok : Bool) :
    Becomes t σ ((σ.batched t data).emit (σ.firstSend t data ok))
      { σ.sessions t with sendQueue := (popBatch ((σ.sessions t).queued data)).2, sending := true }
      [] [σ.firstSend t data ok] := by
  have hset := becomes_set σ t t
    { σ.sessions t with sendQueue := (popBatch ((σ.sessions t).queued data)).2, sending := true }
  have hemit := becomes_emit (σ.batched t data) t (σ.firstSend t data ok) nofun
  rw [if_pos rfl] at hset
  have hboth := hset.trans hemit
  rwa [Server.batched, Server.sessions_set_self] at hboth

theorem spared_batched (σ : Server) {t u : ℕ} (hu : u ≠ t) (data : List UInt8) (ok : Bool) :
    Spared u σ ((σ.batched t data).emit (σ.firstSend t data ok)) := by
  have hset := becomes_set σ t u
    { σ.sessions t with sendQueue := (popBatch ((σ.sessions t).queued data)).2, sending := true }
  have hemit := (becomes_emit (σ.batched t data) u (σ.firstSend t data ok) nofun).forget (by
    intro e he k
    rw [List.mem_singleton.mp he]
    simp [Server.firstSend, Effect.concerns, hu.symm])
  rw [if_neg hu] at hset
  exact hset.before hemit

theorem open_batched (ho : σ.Open t) (data : List UInt8) (ok : Bool) :
    ((σ.batched t data).emit (σ.firstSend t data ok)).Open t :=
  (ho.of_set rfl rfl : (σ.batched t data).Open t)

theorem Books.batched (hb : Books max σ) (t : ℕ) (data : List UInt8) (ok : Bool) :
    Books max ((σ.batched t data).emit (σ.firstSend t data ok)) := by
  have hset : Books max (σ.batched t data) := hb.setQuiet rfl rfl rfl
  exact hset.emit _

theorem reached_enqueueSend (env : Env) (hb : Books max σ) (ho : σ.Open t) (data : List UInt8) :
    Reached env t data σ (enqueueSend env t data σ) := by
  have hsplit := popBatch_append ((σ.sessions t).queued data)
  cases hsending : (σ.sessions t).sending with
  | true =>
    have hset := becomes_set σ t t { σ.sessions t with sendQueue := (σ.sessions t).queued data }
    rw [if_pos rfl] at hset
    rw [enqueueSend_busy env data ho.1 hsending]
    exact .queued hsending hset
  | false =>
    have hsent (ok : Bool) := becomes_batched σ t data ok
    rw [enqueueSend_idle env data ho.1 hsending]
    split_ifs with hfails
    · have hclose := becomes_close (hb.batched t data false) (open_batched ho data false) t
      rw [if_pos rfl, (hsent false).session] at hclose
      exact .failed _ _ hsending hsplit ⟨_, hfails⟩ ((hsent false).trans hclose)
    · set τ := (σ.batched t data).emit (σ.firstSend t data true)
      have hsend := becomes_send τ t
        ⟨t, (σ.sessions t).id, (popBatch ((σ.sessions t).queued data)).1⟩
      rw [if_pos rfl, (hsent true).session] at hsend
      exact .posted _ _ hsending hsplit ((hsent true).trans hsend)

theorem spared_enqueueSend (env : Env) (hb : Books max σ) (hid : (σ.sessions t).id ≠ 0)
    (data : List UInt8) {u : ℕ} (hu : u ≠ t) : Spared u σ (enqueueSend env t data σ) := by
  by_cases hc : (σ.sessions t).closing = true
  · rw [enqueueSend_of_closing hc]
    exact .refl u σ
  rw [Bool.not_eq_true] at hc
  have ho : σ.Open t := ⟨hc, hid⟩
  cases hsending : (σ.sessions t).sending with
  | true =>
    have hset := becomes_set σ t u { σ.sessions t with sendQueue := (σ.sessions t).queued data }
    rw [if_neg hu] at hset
    rw [enqueueSend_busy env data hc hsending]
    exact hset
  | false =>
    rw [enqueueSend_idle env data hc hsending]
    split_ifs with hfails
    · have hclose := (becomes_close (hb.batched t data false) (open_batched ho data false) u).forget (by
        intro e he k
        rw [List.mem_singleton.mp he]
        simp [Effect.concerns, hu.symm])
      rw [if_neg hu] at hclose
      exact (spared_batched σ hu data false).before hclose
    · have hsend := becomes_send ((σ.batched t data).emit (σ.firstSend t data true)) u
        ⟨t, (σ.sessions t).id, (popBatch ((σ.sessions t).queued data)).1⟩
      rw [if_neg hu.symm] at hsend
      exact (spared_batched σ hu data true).before hsend

/-! ### What a broadcast changes -/

theorem Reached.after (h : Reached env t data τ υ) (h' : Spared t σ τ) :
    Reached env t data σ υ := by
  have hsame := h'.session
  cases h with
  | queued hbusy h =>
    rw [hsame] at hbusy h
    exact .queued hbusy (h.after h')
  | posted batch rest hidle hsplit h =>
    rw [hsame] at hidle hsplit h
    exact .posted batch rest hidle hsplit (h.after h')
  | failed batch rest hidle hsplit hfails h =>
    rw [hsame] at hidle hsplit h
    exact .failed batch rest hidle hsplit hfails (h.after h')

theorem Reached.before (h : Reached env t data σ τ) (h' : Spared t τ υ) :
    Reached env t data σ υ := by
  have hkeep {x : Session} {ops : List SendOp} {es : List Effect} (hx : Becomes t σ τ x ops es) :
      Becomes t σ υ x ops es := hx.before h'
  cases h with
  | queued hbusy h => exact .queued hbusy (hkeep h)
  | posted batch rest hidle hsplit h => exact .posted batch rest hidle hsplit (hkeep h)
  | failed batch rest hidle hsplit hfails h =>
    exact .failed batch rest hidle hsplit hfails (hkeep h)

/-- What the loop of a broadcast does for one Session of its snapshot. -/
theorem broadcast_visit (env : Env) (hb : Books max σ) (hid : (σ.sessions t).id ≠ 0)
    (data : List UInt8) (exclude : Option ℕ) :
    Handles env none σ (if some t = exclude then σ else enqueueSend env t data σ) ∧
      ∀ u, u ≠ t → Spared u σ (if some t = exclude then σ else enqueueSend env t data σ) := by
  split_ifs
  · exact ⟨.refl, fun u _ => .refl u σ⟩
  · exact ⟨enqueueSend_acts hid data, fun u hu => spared_enqueueSend env hb hid data hu⟩

theorem broadcast_each (env : Env) (hb : Books max σ) (data : List UInt8) (exclude : Option ℕ) :
    (∀ t, ¬ σ.Open t ∨ some t = exclude → Spared t σ (broadcast env data exclude σ)) ∧
      ∀ t, σ.Open t → some t ≠ exclude → Reached env t data σ (broadcast env data exclude σ) := by
  have hperm := env.order_perm σ
  have hmem (t : ℕ) : t ∈ env.order σ ↔ σ.Open t := hperm.mem_iff.trans hb.mem_tabled
  -- the ids stay, so that whoever is in the snapshot has been accepted
  have hall := Runs.foldl_each
    (fun τ t => if some t = exclude then τ else enqueueSend env t data τ)
    (fun τ => Books max τ ∧ ∀ t, (τ.sessions t).id = (σ.sessions t).id)
    Spared.refl Spared.trans (hperm.nodup_iff.mpr hb.tabled_nodup)
    (by
      intro t ht τ ⟨hτ, hids⟩
      have hid : (τ.sessions t).id ≠ 0 := (hids t).trans_ne ((hmem t).mp ht).2
      have hacts := (broadcast_visit env hτ hid data exclude).1
      refine ⟨hτ.acts hacts, ?_⟩
      intro u
      rw [hacts.kept.id]
      exact hids u)
    (by
      intro t ht τ ⟨hτ, hids⟩ u hu
      have hid : (τ.sessions t).id ≠ 0 := (hids t).trans_ne ((hmem t).mp ht).2
      exact (broadcast_visit env hτ hid data exclude).2 u hu)
    ⟨hb, fun _ => rfl⟩
  obtain ⟨hout, hin⟩ := hall
  constructor
  · intro t ht
    by_cases ho : σ.Open t
    · obtain ⟨τ, -, hbefore, hafter⟩ := hin t ((hmem t).mpr ho)
      rw [if_pos (ht.resolve_left (not_not.mpr ho))] at hafter
      exact hbefore.trans hafter
    · exact hout t (mt (hmem t).mp ho)
  · intro t ho hne
    obtain ⟨τ, ⟨hτ, -⟩, hbefore, hafter⟩ := hin t ((hmem t).mpr ho)
    rw [if_neg hne] at hafter
    have hopen : τ.Open t := by
      unfold Server.Open
      rw [hbefore.session]
      exact ho
    exact ((reached_enqueueSend env hτ hopen data).after hbefore).before hafter

/-- In every state of the server, also in the middle of a handler, a broadcast reaches each open
Session but the excluded one exactly once, and leaves all others as they were. -/
theorem broadcast_reaches {maxSessions n fuel : ℕ} {σ₀ : Server} {es : List Event}
    (hstart : start env maxSessions n fuel = some σ₀)
    (hrun : Exec (step env) (fun _ _ => True) σ₀ es σ)
    (hmoves : Moves env (fun _ _ => True) σ τ) (data : List UInt8) (exclude : Option ℕ) (t : ℕ) :
    (τ.Open t → some t ≠ exclude → Reached env t data τ (broadcast env data exclude τ)) ∧
      (¬ τ.Open t ∨ some t = exclude → Spared t τ (broadcast env data exclude τ)) := by
  have hbooks : Books maxSessions τ := (books_run hstart hrun).moves hmoves
  obtain ⟨hspared, hreached⟩ := broadcast_each env hbooks data exclude
  exact ⟨hreached t, hspared t⟩

/-- `WSASend` fails for Session 1 as soon as there are two connections. -/
def Env.deaf : Env := { Env.calm with wsaSendFails := fun σ s => s = 1 ∧ σ.tabled.length = 2 }

/-- The greeting of the first client was sent before the second one connects. -/
def secondClient : List Event := [.accept 0 1, .send 0, .accept 0 1]

/-- A broadcast queues its message for the Session that is busy and closes the other one. -/
theorem broadcast_reaches_deaf :
    ∃ σ : Server, ((broadcast .deaf [65] none σ).sessions 1).closing = true ∧
      ((broadcast .deaf [65] none σ).sessions 0).sendQueue = [⟨2, [65]⟩] ∧
      Reached .deaf 0 [65] σ (broadcast .deaf [65] none σ) ∧
      Reached .deaf 1 [65] σ (broadcast .deaf [65] none σ) := by
  obtain ⟨σ₀, σ, hstart, hrun, ho, hclosing, hqueue⟩ : ∃ σ₀ σ, start .deaf 2 2 1 = some σ₀ ∧
      Exec (step .deaf) (fun _ _ => True) σ₀ secondClient σ ∧
        (∀ t ∈ [0, 1], (σ.sessions t).closing = false ∧ (σ.sessions t).id ≠ 0) ∧
        ((broadcast .deaf [65] none σ).sessions 1).closing = true ∧
        ((broadcast .deaf [65] none σ).sessions 0).sendQueue = [⟨2, [65]⟩] :=
    exists_run (by decide +kernel)
  have hreached (t : ℕ) := (broadcast_reaches hstart hrun .refl [65] none t).1
  exact ⟨σ, hclosing, hqueue, hreached 0 (ho 0 (by decide)) nofun,
    hreached 1 (ho 1 (by decide)) nofun⟩

end IocpChat
