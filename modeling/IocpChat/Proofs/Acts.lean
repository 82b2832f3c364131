import IocpChat.Proofs.SendPath
import IocpChat.Spec.Moves

/-! What handling a packet can do. Every handler is a sequence of a few acts, each
on a Session that is open at that moment; an invariant that the acts keep is kept
by all the handlers. -/

namespace IocpChat

open SendPath (popBatch)
open Relation (ReflTransGen)

/-- Every Session of the table has been accepted. -/
def Server.Known (σ : Server) : Prop := ∀ t ∈ σ.tabled, (σ.sessions t).id ≠ 0

/-- What `PostSend` and `CloseSession` leave in the record. -/
def Effect.isSend : Effect → Bool
  | .wsaSend .. | .closed .. => true
  | _ => false

abbrev Acts (env : Env) (cur : Option ℕ) (N : Effect → Prop) : Server → Server → Prop :=
  ReflTransGen (Act env cur N)

/-! ### The fields of a changed server -/

theorem Server.sessions_set (σ : Server) (s t : ℕ) (x : Session) :
    (σ.set s x).sessions t = if t = s then x else σ.sessions t := by
  simp only [Server.set, Function.update_apply]

@[simp] theorem Server.sessions_set_self (σ : Server) (s : ℕ) (x : Session) :
    (σ.set s x).sessions s = x := by simp [Server.sessions_set]

@[simp] theorem Server.sessions_emit (σ : Server) (e : Effect) :
    (σ.emit e).sessions = σ.sessions := rfl

theorem closeSession_of_closing {s : ℕ} {σ : Server} (h : (σ.sessions s).closing = true) :
    closeSession s σ = σ := by
  simp [closeSession, h]

theorem postSend_of_closing {env : Env} {s : ℕ} {σ : Server}
    (h : (σ.sessions s).closing = true) : postSend env s σ = σ := by
  simp [postSend, h]

theorem enqueueSend_of_closing {env : Env} {s : ℕ} {data : List UInt8} {σ : Server}
    (h : (σ.sessions s).closing = true) : enqueueSend env s data σ = σ := by
  simp [enqueueSend, h]

theorem Server.set_self (σ : Server) (s : ℕ) : σ.set s (σ.sessions s) = σ := by
  rw [Server.set, Function.update_eq_self]

theorem Server.popSend_of_nil {σ : Server} {s : ℕ} (h : (σ.sessions s).sendQueue = []) :
    σ.popSend s = σ := by
  have hx : { σ.sessions s with sendQueue := (popBatch (σ.sessions s).sendQueue).2 } =
      σ.sessions s := by
    rw [h, show (popBatch ([] : List Msg)).2 = [] from rfl, ← h]
  simp only [Server.popSend, hx, Server.set_self]

theorem Server.open_set (σ : Server) (s t : ℕ) (x : Session) :
    (σ.set s x).Open t ↔ if t = s then x.closing = false ∧ x.id ≠ 0 else σ.Open t := by
  simp only [Server.Open, Server.sessions_set]
  split_ifs <;> rfl

theorem sessions_closeSession {s : ℕ} {σ : Server} (hc : (σ.sessions s).closing = false) (t : ℕ) :
    (closeSession s σ).sessions t =
      if t = s then { σ.sessions s with closing := true, rxBuf := none } else σ.sessions t := by
  simp only [closeSession, hc, Bool.false_eq_true, if_false]
  exact σ.sessions_set s t _

theorem trace_closeSession {s : ℕ} {σ : Server} (hc : (σ.sessions s).closing = false) :
    (closeSession s σ).trace = σ.trace ++ [.closed s (σ.sessions s).id] := by
  simp [closeSession, hc]

theorem closeSession_sends (s : ℕ) (σ : Server) : (closeSession s σ).sends = σ.sends := by
  simp only [closeSession]
  split_ifs <;> rfl

theorem closeSession_recvs (s : ℕ) (σ : Server) : (closeSession s σ).recvs = σ.recvs := by
  simp only [closeSession]
  split_ifs <;> rfl

theorem closeSession_mem (s : ℕ) (σ : Server) : (closeSession s σ).mem = σ.mem := by
  simp only [closeSession]
  split_ifs <;> rfl

theorem open_closeSession {s : ℕ} {σ : Server} (hc : (σ.sessions s).closing = false) (t : ℕ) :
    (closeSession s σ).Open t ↔ t ≠ s ∧ σ.Open t := by
  simp only [Server.Open, sessions_closeSession hc]
  split_ifs with ht <;> simp [ht]

/-! ### What `EnqueueSend` changes -/

theorem Server.set_set (σ : Server) (s : ℕ) (x y : Session) : (σ.set s x).set s y = σ.set s y := by
  unfold Server.set
  dsimp only
  rw [Function.update_idem]

/-- The batch was popped from the queue with one message more. -/
def Server.batched (σ : Server) (t : ℕ) (data : List UInt8) : Server :=
  let x := σ.sessions t
  σ.set t { x with sendQueue := (popBatch (x.queued data)).2, sending := true }

/-- The `wsaSend` of that batch. -/
def Server.firstSend (σ : Server) (t : ℕ) (data : List UInt8) (ok : Bool) : Effect :=
  let x := σ.sessions t
  .wsaSend t x.id x.sock (popBatch (x.queued data)).1 ok

theorem enqueueSend_busy (env : Env) (data : List UInt8) {t : ℕ} {σ : Server}
    (hc : (σ.sessions t).closing = false)
    (hbusy : (σ.sessions t).sending = true) : enqueueSend env t data σ =
      σ.set t { σ.sessions t with sendQueue := (σ.sessions t).queued data } := by
  have hpush : ((σ.push t data).sessions t).sending = true := by
    rw [Server.push, Server.sessions_set_self]
    exact hbusy
  unfold enqueueSend
  rw [if_neg (Bool.eq_false_iff.mp hc)]
  exact if_pos hpush

theorem enqueueSend_idle (env : Env) (data : List UInt8) {t : ℕ} {σ : Server}
    (hc : (σ.sessions t).closing = false)
    (hidle : (σ.sessions t).sending = false) : enqueueSend env t data σ =
      if env.wsaSendFails (σ.batched t data) t then
        closeSession t ((σ.batched t data).emit (σ.firstSend t data false))
      else { (σ.batched t data).emit (σ.firstSend t data true) with
        sends := σ.sends ++ [⟨t, (σ.sessions t).id, (popBatch ((σ.sessions t).queued data)).1⟩] } := by
  set claimed := (σ.push t data).setSending t true
  have hclaimed : claimed.sessions t =
      { σ.sessions t with sendQueue := (σ.sessions t).queued data, sending := true } := by
    simp [claimed, Server.setSending, Server.push, Session.queued]
  have hpop : claimed.popSend t = σ.batched t data := by
    unfold Server.popSend Server.batched
    rw [hclaimed]
    simp only [claimed, Server.setSending, Server.push, Server.set_set]
  have hpush : ((σ.push t data).sessions t).sending = false := by
    rw [Server.push, Server.sessions_set_self]
    exact hidle
  have hsome : (popBatch ((σ.sessions t).queued data)).1.isEmpty = false := by
    rw [Bool.eq_false_iff]
    intro hnil
    have hq := SendPath.popBatch_eq_nil (List.isEmpty_iff.mp hnil)
    simp [Session.queued] at hq
  have henqueue : enqueueSend env t data σ = postSend env t claimed := by
    unfold enqueueSend
    rw [if_neg (Bool.eq_false_iff.mp hc)]
    exact if_neg (Bool.eq_false_iff.mp hpush)
  rw [henqueue]
  unfold postSend
  simp only [hclaimed, hc, hpop, hsome, Bool.false_eq_true, if_false]
  cases env.wsaSendFails (σ.batched t data) t with
  | true => rfl
  | false => rfl

/-! ### What acts leave alone -/

/-- `σ'` comes from `σ` by acts of handlers. -/
structure Kept (N : Effect → Prop) (σ σ' : Server) : Prop where
  id : ∀ t, (σ'.sessions t).id = (σ.sessions t).id
  rx : ∀ t, (σ'.sessions t).rx = (σ.sessions t).rx
  closed : ∀ t, (σ.sessions t).closing = true → σ'.sessions t = σ.sessions t
  tabled : σ'.tabled ⊆ σ.tabled
  recvs : σ'.recvs = σ.recvs
  mem : σ'.mem = σ.mem
  accepts : σ'.accepts = σ.accepts
  idGen : σ'.sessionIdGen = σ.sessionIdGen
  trace : ∃ es, σ'.trace = σ.trace ++ es ∧ ∀ e ∈ es, N e ∨ e.isSend = true

variable {env : Env} {cur : Option ℕ} {N : Effect → Prop} {σ σ' : Server}

theorem Kept.refl (σ : Server) : Kept N σ σ :=
  ⟨fun _ => rfl, fun _ => rfl, fun _ _ => rfl, fun _ h => h, rfl, rfl, rfl, rfl, [], by simp,
    by simp⟩

theorem Kept.trans {σ'' : Server} (h : Kept N σ σ') (h' : Kept N σ' σ'') : Kept N σ σ'' where
  id t := (h'.id t).trans (h.id t)
  rx t := (h'.rx t).trans (h.rx t)
  closed t ht := by rw [h'.closed t (by rw [h.closed t ht, ht]), h.closed t ht]
  tabled := fun t ht => h.tabled (h'.tabled ht)
  recvs := h'.recvs.trans h.recvs
  mem := h'.mem.trans h.mem
  accepts := h'.accepts.trans h.accepts
  idGen := h'.idGen.trans h.idGen
  trace := by
    obtain ⟨es, he, hes⟩ := h.trace
    obtain ⟨fs, hf, hfs⟩ := h'.trace
    refine ⟨es ++ fs, by rw [hf, he, List.append_assoc], fun e hmem => ?_⟩
    rcases List.mem_append.mp hmem with hm | hm
    · exact hes e hm
    · exact hfs e hm

/-- Changing what is not the id or the ring of an open Session. -/
theorem kept_set {s : ℕ} {x : Session} (ho : σ.Open s) (hid : x.id = (σ.sessions s).id)
    (hrx : x.rx = (σ.sessions s).rx) : Kept N σ (σ.set s x) where
  id t := by
    rw [Server.sessions_set]
    split_ifs with h
    · rw [hid, h]
    · rfl
  rx t := by
    rw [Server.sessions_set]
    split_ifs with h
    · rw [hrx, h]
    · rfl
  closed t ht := by
    rw [Server.sessions_set, if_neg]
    rintro rfl
    rw [ho.1] at ht
    contradiction
  tabled _ h := h
  recvs := rfl
  mem := rfl
  accepts := rfl
  idGen := rfl
  trace := ⟨[], by simp [Server.set], by simp⟩

theorem kept_emit {e : Effect} (he : N e ∨ e.isSend = true) : Kept N σ (σ.emit e) :=
  ⟨fun _ => rfl, fun _ => rfl, fun _ _ => rfl, fun _ h => h, rfl, rfl, rfl, rfl, [e], rfl,
    by simpa using he⟩

theorem kept_closeSession {s : ℕ} (ho : σ.Open s) : Kept N σ (closeSession s σ) := by
  have hset := kept_set (N := N)
    (x := { σ.sessions s with closing := true, rxBuf := none }) ho rfl rfl
  have heq := ho.1
  refine ⟨?_, ?_, ?_, ?_, ?_, ?_, ?_, ?_, ?_⟩ <;>
    simp only [closeSession, heq, Bool.false_eq_true, if_false]
  · exact hset.id
  · exact hset.rx
  · exact hset.closed
  · intro t ht
    exact (List.Sublist.map _ (List.kerase_sublist _ _)).subset ht
  · rfl
  · rfl
  · rfl
  · rfl
  · exact ⟨[.closed s (σ.sessions s).id], rfl, by simp [Effect.isSend]⟩

theorem Server.Open.of_set {s : ℕ} {x : Session} (ho : σ.Open s)
    (hc : x.closing = (σ.sessions s).closing) (hid : x.id = (σ.sessions s).id) :
    (σ.set s x).Open s := by
  simp only [Server.Open, Server.sessions_set_self, hc, hid]
  exact ho

theorem kept_handed {t : ℕ} (ho : σ.Open t) (ok : Bool) : Kept N σ (σ.handed t ok) := by
  have hpop : Kept N σ (σ.popSend t) := kept_set ho rfl rfl
  exact hpop.trans (kept_emit (.inr rfl))

theorem Server.Open.handed {t : ℕ} (ho : σ.Open t) (ok : Bool) : (σ.handed t ok).Open t :=
  ho.of_set rfl rfl

theorem Act.kept (h : Act env cur N σ σ') : Kept N σ σ' := by
  cases h with
  | note e he => exact kept_emit (.inl he)
  | push t data ho => exact kept_set ho rfl rfl
  | claim t ho => exact kept_set ho rfl rfl
  | idle t ho hq => exact kept_set ho rfl rfl
  | hand t ho =>
    have hk := kept_handed (N := N) ho true
    exact ⟨hk.id, hk.rx, hk.closed, hk.tabled, hk.recvs, hk.mem, hk.accepts, hk.idGen, hk.trace⟩
  | fail t ho hf => exact (kept_handed ho false).trans (kept_closeSession (ho.handed false))
  | close s hs ho => exact kept_closeSession ho

/-- More may be closed and noted. -/
theorem Acts.mono {cur' : Option ℕ} {N' : Effect → Prop} (hcur : ∀ t, cur = some t → cur' = some t)
    (hN : ∀ e, N e → N' e) (h : Acts env cur N σ σ') : Acts env cur' N' σ σ' := by
  refine ReflTransGen.mono (fun σ σ' hact => ?_) _ _ h
  cases hact with
  | note e he => exact .note σ e (hN e he)
  | push t data ho => exact .push σ t data ho
  | claim t ho => exact .claim σ t ho
  | idle t ho hq => exact .idle σ t ho hq
  | hand t ho => exact .hand σ t ho
  | fail t ho hf => exact .fail σ t ho hf
  | close t ht ho => exact .close σ t (hcur t ht) ho

theorem Acts.kept (h : Acts env cur N σ σ') : Kept N σ σ' := by
  induction h with
  | refl => exact .refl _
  | tail _ hact ih => exact ih.trans hact.kept

theorem Kept.known (h : Kept N σ σ') (hk : σ.Known) : σ'.Known := fun t ht => by
  rw [h.id]
  exact hk t (h.tabled ht)

/-! ### The handlers are acts -/

theorem Server.open_of_not_closing {s : ℕ} (hc : ¬ (σ.sessions s).closing = true)
    (hid : (σ.sessions s).id ≠ 0) : σ.Open s := ⟨by simpa using hc, hid⟩

theorem closeSession_acts {s : ℕ} (hid : (σ.sessions s).id ≠ 0) :
    Acts env (some s) N σ (closeSession s σ) := by
  by_cases hc : (σ.sessions s).closing = true
  · rw [closeSession_of_closing hc]
  · exact .single (.close σ s rfl (Server.open_of_not_closing hc hid))

theorem postSend_acts {s : ℕ} (hid : (σ.sessions s).id ≠ 0) :
    Acts env cur N σ (postSend env s σ) := by
  by_cases hc : (σ.sessions s).closing = true
  · rw [postSend_of_closing hc]
  have ho := Server.open_of_not_closing hc hid
  simp only [postSend, ho.1, Bool.false_eq_true, if_false]
  split_ifs with hnil hok
  · have hq := SendPath.popBatch_eq_nil (List.isEmpty_iff.mp hnil)
    rw [Server.popSend_of_nil hq]
    exact .single (.idle σ s ho hq)
  · rw [hok]
    exact .single (.hand σ s ho)
  · rw [Bool.not_eq_true] at hok
    rw [hok]
    exact .single (.fail σ s ho (by simpa using hok))

theorem enqueueSend_acts {s : ℕ} (hid : (σ.sessions s).id ≠ 0) (data : List UInt8) :
    Acts env cur N σ (enqueueSend env s data σ) := by
  by_cases hc : (σ.sessions s).closing = true
  · rw [enqueueSend_of_closing hc]
  have ho := Server.open_of_not_closing hc hid
  have hpush : Act env cur N σ (σ.push s data) := .push σ s data ho
  have ho' : (σ.push s data).Open s := ho.of_set rfl rfl
  simp only [enqueueSend, ho.1, Bool.false_eq_true, if_false]
  split_ifs
  · exact .single hpush
  · refine .head hpush (.head (.claim _ s ho') (postSend_acts ?_))
    exact (ho'.of_set rfl rfl : ((σ.push s data).setSending s true).Open s).2

theorem foldl_acts {f : Server → ℕ → Server} (targets : List ℕ)
    (hf : ∀ σ t, (σ.sessions t).id ≠ 0 → Acts env cur N σ (f σ t))
    (hid : ∀ t ∈ targets, (σ.sessions t).id ≠ 0) : Acts env cur N σ (targets.foldl f σ) := by
  induction targets generalizing σ with
  | nil => exact .refl
  | cons t targets ih =>
    have hhead := hf σ t (hid t (by simp))
    refine hhead.trans (ih fun u hu => ?_)
    rw [hhead.kept.id]
    exact hid u (by simp [hu])

theorem broadcast_acts (hk : σ.Known) (data : List UInt8) (exclude : Option ℕ) :
    Acts env cur N σ (broadcast env data exclude σ) := by
  refine foldl_acts _ (fun σ t hid => ?_) fun t ht => hk t ((env.order_perm σ).subset ht)
  split_ifs
  · exact .refl
  · exact enqueueSend_acts hid data

/-- The acts of packet handlers that may close `cur`. -/
abbrev Handles (env : Env) (cur : Option ℕ) : Server → Server → Prop :=
  Acts env cur fun e => e.isNote = true

theorem acts_note {e : Effect} (h : Acts env cur N (σ.emit e) σ') (he : N e) :
    Acts env cur N σ σ' :=
  .head (.note σ e he) h

section Handlers

variable {s : ℕ} (hid : (σ.sessions s).id ≠ 0) (hlog : ∀ level text, N (.log level text))
include hid hlog

theorem onClientConnected_acts : Acts env cur N σ (onClientConnected env s σ) := by
  simp only [onClientConnected]
  exact acts_note (enqueueSend_acts (by exact hid) _) (hlog _ _)

theorem handleUserCount_acts :
    Acts env cur N σ (handleUserCount env s σ) := by
  simp only [handleUserCount]
  exact acts_note (enqueueSend_acts (by exact hid) _) (hlog _ _)

theorem handleLogin_acts (buf : List UInt8) :
    Acts env cur N σ (handleLogin env s buf σ) := by
  simp only [handleLogin]
  exact (enqueueSend_acts hid _).trans (acts_note .refl (hlog _ _))

end Handlers

end IocpChat
