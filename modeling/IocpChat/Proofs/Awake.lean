import IocpChat.Proofs.Broadcast
import IocpChat.Proofs.ChatRoom

/-! With one handler at a time no message is stranded: a Session that is sending has a send in
flight, and one that is not has nothing to send. Within a handler this may fail for the one
Session that the handler is about to send on. -/

namespace IocpChat

open Runs (Exec)
open SendPath (popBatch)

variable {env : Env} {max s t : ℕ} {data : List UInt8} {σ τ σ' : Server}

/-- Nothing waits for a send that nobody makes. -/
structure Server.AwakeAt (σ : Server) (t : ℕ) : Prop where
  idle : (σ.sessions t).sending = false → (σ.sessions t).sendQueue = []
  busy : (σ.sessions t).sending = true → ∃ op ∈ σ.sends, op.sess = t

def Awake (σ : Server) : Prop := ∀ t, σ.Open t → σ.AwakeAt t

/-- The same, but Session `s` may have something to send and no send in flight. -/
structure AwakeBut (s : ℕ) (σ : Server) : Prop where
  others : ∀ t, t ≠ s → σ.Open t → σ.AwakeAt t
  busy : σ.Open s → (σ.sessions s).sending = true → ∃ op ∈ σ.sends, op.sess = s

theorem Awake.but (h : Awake σ) (s : ℕ) : AwakeBut s σ where
  others t _ := h t
  busy ho := (h s ho).busy

theorem awake_new (maxSessions : ℕ) : Awake (.new maxSessions) := fun _ ho => absurd rfl ho.2

/-! ### What does not matter -/

theorem Awake.same (h : Awake σ) (hs : τ.sessions = σ.sessions) (hops : τ.sends = σ.sends) :
    Awake τ := by
  intro t ho
  rw [Server.Open, hs] at ho
  obtain ⟨hidle, hbusy⟩ := h t ho
  constructor
  · rwa [hs]
  · rwa [hs, hops]

theorem AwakeBut.same (h : AwakeBut s σ) (hs : τ.sessions = σ.sessions)
    (hops : τ.sends = σ.sends) : AwakeBut s τ := by
  constructor
  · intro t hts ho
    rw [Server.Open, hs] at ho
    obtain ⟨hidle, hbusy⟩ := h.others t hts ho
    constructor
    · rwa [hs]
    · rwa [hs, hops]
  · intro ho
    rw [Server.Open, hs] at ho
    rw [hs, hops]
    exact h.busy ho

theorem AwakeBut.close (h : AwakeBut s σ) (u : ℕ) : AwakeBut s (closeSession u σ) := by
  by_cases hc : (σ.sessions u).closing = true
  · rwa [closeSession_of_closing hc]
  rw [Bool.not_eq_true] at hc
  have hses {t : ℕ} (ht : t ≠ u) : (closeSession u σ).sessions t = σ.sessions t := by
    rw [sessions_closeSession hc, if_neg ht]
  constructor
  · intro t hts ho
    obtain ⟨htu, ho⟩ := (open_closeSession hc t).mp ho
    obtain ⟨hidle, hbusy⟩ := h.others t hts ho
    constructor
    · rwa [hses htu]
    · rwa [hses htu, closeSession_sends]
  · intro ho
    obtain ⟨hsu, ho⟩ := (open_closeSession hc s).mp ho
    rw [hses hsu, closeSession_sends]
    exact h.busy ho

theorem Awake.close (h : Awake σ) (u : ℕ) : Awake (closeSession u σ) := by
  by_cases hc : (σ.sessions u).closing = true
  · rwa [closeSession_of_closing hc]
  rw [Bool.not_eq_true] at hc
  intro t ho
  obtain ⟨htu, -⟩ := (open_closeSession hc t).mp ho
  exact ((h.but u).close u).others t htu ho

theorem AwakeBut.postRecv (h : AwakeBut s σ) (env : Env) (u : ℕ) : AwakeBut s (postRecv env u σ) := by
  rcases postRecv_cases env u σ with ⟨-, he⟩ | ⟨-, he | he⟩ <;> rw [he]
  · exact h
  · exact h.same rfl rfl
  · exact (h.same (τ := σ.emit _) rfl rfl).close u

theorem Awake.postRecv (h : Awake σ) (env : Env) (u : ℕ) : Awake (postRecv env u σ) := by
  rcases postRecv_cases env u σ with ⟨-, he⟩ | ⟨-, he | he⟩ <;> rw [he]
  · exact h
  · exact h.same rfl rfl
  · exact (h.same (τ := σ.emit _) rfl rfl).close u

/-- A Session for which nothing changed. -/
theorem Server.AwakeAt.spared (h : σ.AwakeAt t) (hspared : Spared t σ σ') : σ'.AwakeAt t := by
  constructor
  · rw [hspared.session]
    exact h.idle
  · rw [hspared.session]
    intro hsending
    obtain ⟨op, hop, hsess⟩ := h.busy hsending
    have hmem : op ∈ σ.sends.filter (·.sess = t) := List.mem_filter.mpr ⟨hop, decide_eq_true hsess⟩
    rw [← List.append_nil (σ.sends.filter _), ← hspared.sends] at hmem
    exact ⟨op, (List.mem_filter.mp hmem).1, hsess⟩

theorem Spared.open_iff (h : Spared t σ σ') : σ'.Open t ↔ σ.Open t := by
  rw [Server.Open, Server.Open, h.session]

/-! ### Sending -/

/-- Whoever is reached by a message has a send in flight, or is closed. -/
theorem Reached.awake (h : Reached env t data σ σ')
    (hbusy : (σ.sessions t).sending = true → ∃ op ∈ σ.sends, op.sess = t) (ho : σ'.Open t) :
    σ'.AwakeAt t := by
  cases h with
  | queued hsending h =>
    constructor
    · rw [h.session, hsending]
      exact fun hidle => absurd hidle Bool.true_eq_false.mp
    · intro _
      obtain ⟨op, hop, hsess⟩ := hbusy hsending
      have hmem : op ∈ σ.sends.filter (·.sess = t) :=
        List.mem_filter.mpr ⟨hop, decide_eq_true hsess⟩
      rw [← List.append_nil (σ.sends.filter _), ← h.sends] at hmem
      exact ⟨op, (List.mem_filter.mp hmem).1, hsess⟩
  | posted batch rest hidle hsplit h =>
    constructor
    · rw [h.session]
      exact fun hidle => absurd hidle Bool.true_eq_false.mp
    · intro _
      have hmem : ⟨t, (σ.sessions t).id, batch⟩ ∈ σ'.sends.filter (·.sess = t) := by
        rw [h.sends]
        exact List.mem_append_right _ (List.mem_singleton_self _)
      exact ⟨_, (List.mem_filter.mp hmem).1, rfl⟩
  | failed batch rest hidle hsplit hfails h =>
    have hc := ho.1
    rw [h.session] at hc
    contradiction

theorem AwakeBut.enqueueSend (h : AwakeBut s σ) (env : Env) (hb : Books max σ)
    (hid : (σ.sessions s).id ≠ 0) (data : List UInt8) : Awake (enqueueSend env s data σ) := by
  intro t ho
  by_cases hts : t = s
  · subst hts
    have ho' := (mailed_enqueueSend env hid data).opens t ho
    exact (reached_enqueueSend env hb ho' data).awake (h.busy ho') ho
  · have hspared := spared_enqueueSend env hb hid data hts
    exact (h.others t hts (hspared.open_iff.mp ho)).spared hspared

theorem Awake.broadcast (h : Awake σ) (env : Env) (hb : Books max σ) (data : List UInt8)
    (exclude : Option ℕ) : Awake (broadcast env data exclude σ) := by
  obtain ⟨hout, hin⟩ := broadcast_each env hb data exclude
  intro t ho
  have ho' := (mailed_broadcast env hb data exclude).opens t ho
  by_cases hex : some t = exclude
  · exact (h t ho').spared (hout t (.inr hex))
  · exact (hin t ho' hex).awake (h t ho').busy ho

theorem Awake.run (h : Awake σ) (env : Env) (hb : Books max σ) (hid : (σ.sessions s).id ≠ 0)
    {packet : List UInt8} {handler : Handler} (htakes : handler.Takes packet) :
    Awake (handler.run env s packet σ) := by
  have hnote (e e' : Effect) : Awake ((σ.emit e).emit e') := h.same rfl rfl
  cases handler with
  | login =>
    have hsent := (h.but s).enqueueSend env hb hid
    exact (hsent _).same rfl rfl
  | chatMessage => exact (hnote _ _).broadcast env ((hb.emit _).emit _) _ _
  | exit =>
    simp only [Handler.run, handleExit_eq (Handler.takes_iff.mp htakes)]
    exact ((hnote _ _).broadcast env ((hb.emit _).emit _) _ _).close s
  | userCount =>
    have hlog (e : Effect) : AwakeBut s (σ.emit e) := (h.but s).same rfl rfl
    exact (hlog _).enqueueSend env (hb.emit _) hid _

theorem Awake.handled (h : Awake σ) (env : Env) (hb : Books max σ) (hid : (σ.sessions s).id ≠ 0)
    (packet : List UInt8) : Awake (onPacket env s packet σ) := by
  have hcall := onPacket_dispatch env s packet σ
  cases hd : dispatch packet with
  | none =>
    rw [hd] at hcall
    obtain ⟨text, hlog⟩ := hcall
    rw [hlog]
    exact h.same rfl rfl
  | some handler =>
    rw [hd] at hcall
    change onPacket env s packet σ = _ at hcall
    rw [hcall]
    exact h.run env hb hid (dispatch_eq_some.mp hd)

theorem Awake.setRx (h : Awake σ) (s : ℕ) (rx : RingBuffer) : Awake (σ.setRx s rx) := by
  intro t ho
  rw [σ.open_setRx] at ho
  have hses : ((σ.setRx s rx).sessions t).sending = (σ.sessions t).sending ∧
      ((σ.setRx s rx).sessions t).sendQueue = (σ.sessions t).sendQueue := by
    rw [Server.setRx, σ.sessions_set]
    split_ifs with hts
    · rw [hts]
      exact ⟨rfl, rfl⟩
    · exact ⟨rfl, rfl⟩
  obtain ⟨hidle, hbusy⟩ := h t ho
  constructor
  · rwa [hses.1, hses.2]
  · rwa [hses.1]

theorem Drained.awake (h : Drained env s σ σ') (hb : Books max σ) (hid : (σ.sessions s).id ≠ 0)
    (hw : Awake σ) : Awake σ' := by
  induction h with
  | waits σ hv => exact hw.postRecv env s
  | stops σ text hv => exact (hw.same (τ := (σ.emit _).emit _) rfl rfl).close s
  | packet σ σ' n rx hv hcap hrx hrest ih =>
    refine ih (hb.packetDone n rx hid) (packetDone_id env n rx hid hb.grounded.known) ?_
    have hring : Books max (σ.setRx s rx) := hb.setQuiet rfl rfl rfl
    have htaken : Awake ((σ.setRx s rx).emit
        (.packet s (σ.sessions s).id ((σ.sessions s).rx.content.take n))) :=
      (hw.setRx s rx).same rfl rfl
    exact htaken.handled env (hring.emit _) ((σ.id_setRx s s rx).trans_ne hid) _

theorem Awake.recvCompletion (hw : Awake σ) (hb : Books max σ) (hid : (σ.sessions s).id ≠ 0)
    {n : ℕ} (h : recvCompletion env s n σ = some σ') : Awake σ' := by
  have hstored (rx : RingBuffer) (data : List UInt8) : Awake (σ.stored s rx data) :=
    (hw.setRx s rx).same rfl rfl
  rcases recvCompletion_cases hid hb.grounded.known h with rfl | ⟨rx, data, ⟨text, rfl⟩ | hdrained⟩
  · exact hw.close s
  · have hlog : Awake ((σ.stored s rx data).emit (.log .warn text)) := (hstored rx data).same rfl rfl
    exact hlog.close s
  · exact hdrained.awake (hb.stored s rx data) ((σ.id_stored s s rx data).trans_ne hid)
      (hstored rx data)

theorem AwakeBut.connect (h : Awake σ) {free : List ℕ} {sock : Option ℕ} (hg : 0 < σ.sessionIdGen) :
    AwakeBut s (connect s free sock σ) := by
  have hses {t : ℕ} (ht : t ≠ s) : (IocpChat.connect s free sock σ).sessions t = σ.sessions t := by
    rw [sessions_connect, if_neg ht]
  have hsends : (IocpChat.connect s free sock σ).sends = σ.sends := by
    rw [connect_eq]
    rfl
  constructor
  · intro t hts ho
    have ho' : σ.Open t := ((open_connect hg t).mp ho).resolve_left hts
    obtain ⟨hidle, hbusy⟩ := h t ho'
    constructor
    · rwa [hses hts]
    · rwa [hses hts, hsends]
  · intro _ hsending
    rw [sessions_connect, if_pos rfl] at hsending
    contradiction

theorem Awake.acceptCompletion (hw : Awake σ) (hb : Books max σ) {fuel : ℕ} {op : AcceptOp}
    (h : acceptCompletion env fuel op σ = some σ') : Awake σ' := by
  rcases acceptCompletion_cases h with ⟨-, acc, socks, rfl⟩ |
    ⟨s, free, acc, socks, acc', socks', hf, rfl⟩
  · exact hw.same rfl rfl
  · have hid := connect_id_ne hb.grounded.idGen s free op.acceptSock
    set τ := IocpChat.connect s free op.acceptSock σ
    have hbooks : Books max (IocpChat.postRecv env s τ) :=
      (hb.connects hf _).moves (C := fun _ _ => True) (postRecv_moves hid)
    have hposted : AwakeBut s (IocpChat.postRecv env s τ) :=
      (AwakeBut.connect hw hb.grounded.idGen).postRecv env s
    have hlog (e : Effect) : AwakeBut s (((IocpChat.postRecv env s τ).side acc socks).emit e) :=
      hposted.same rfl rfl
    have hsent : Awake (onClientConnected env s ((IocpChat.postRecv env s τ).side acc socks)) :=
      (hlog _).enqueueSend env ((hbooks.side acc socks).emit _)
      ((postRecv_id env s s τ).trans_ne hid) kAskId
    exact hsent.same rfl rfl

/-! ### The completion of a send -/

/-- What `PostSend` does: nothing for a closed Session, and for an open one it finds nothing
to send, or posts a batch, or closes the Session. -/
theorem postSend_cases (env : Env) (s : ℕ) (σ : Server) :
    ((σ.sessions s).closing = true ∧ postSend env s σ = σ) ∨
      (σ.sessions s).closing = false ∧
        (((σ.sessions s).sendQueue = [] ∧ postSend env s σ = σ.setSending s false) ∨
          (σ.sessions s).sendQueue ≠ [] ∧
            (postSend env s σ = σ.posted s ∨ postSend env s σ = closeSession s (σ.handed s false))) := by
  cases hc : (σ.sessions s).closing with
  | true => exact .inl ⟨rfl, postSend_of_closing hc⟩
  | false =>
    refine .inr ⟨rfl, ?_⟩
    by_cases hq : (σ.sessions s).sendQueue = []
    · have hnil : (popBatch (σ.sessions s).sendQueue).1.isEmpty = true := by rw [hq]; rfl
      refine .inl ⟨hq, ?_⟩
      simp only [postSend, hc, hnil, if_true, Server.popSend_of_nil hq]
      rfl
    · have hsome : (popBatch (σ.sessions s).sendQueue).1.isEmpty = false := by
        rw [Bool.eq_false_iff]
        exact fun hnil => hq (SendPath.popBatch_eq_nil (List.isEmpty_iff.mp hnil))
      refine .inr ⟨hq, ?_⟩
      simp only [postSend, hc, hsome, Bool.false_eq_true, if_false]
      cases env.wsaSendFails (σ.popSend s) s with
      | true => exact .inr rfl
      | false => exact .inl rfl

theorem Server.sessions_posted (σ : Server) (s t : ℕ) : (σ.posted s).sessions t =
    if t = s then { σ.sessions s with sendQueue := (popBatch (σ.sessions s).sendQueue).2 }
    else σ.sessions t := σ.sessions_set s t _

theorem Server.sessions_setSending (σ : Server) (s t : ℕ) (b : Bool) :
    (σ.setSending s b).sessions t =
      if t = s then { σ.sessions s with sending := b } else σ.sessions t := σ.sessions_set s t _

/-- A completion may leave its Session without a send in flight; it takes up the next batch. -/
theorem awake_postSend (env : Env) (hothers : ∀ t, t ≠ s → σ.Open t → σ.AwakeAt t)
    (hidle : σ.Open s → (σ.sessions s).sending = false → (σ.sessions s).sendQueue = []) :
    Awake (postSend env s σ) := by
  intro t ho
  rcases postSend_cases env s σ with ⟨hc, he⟩ | ⟨hc, ⟨hq, he⟩ | ⟨hq, he | he⟩⟩ <;> rw [he] at ho ⊢
  · refine hothers t ?_ ho
    rintro rfl
    rw [ho.1] at hc
    contradiction
  · rw [σ.open_setSending] at ho
    by_cases hts : t = s
    · subst hts
      constructor
      · rw [σ.sessions_setSending, if_pos rfl]
        exact fun _ => hq
      · rw [σ.sessions_setSending, if_pos rfl]
        exact fun hsending => absurd hsending Bool.false_ne_true
    · obtain ⟨hidle', hbusy⟩ := hothers t hts ho
      constructor
      · rwa [σ.sessions_setSending, if_neg hts]
      · rwa [σ.sessions_setSending, if_neg hts]
  · have ho' : σ.Open t := (σ.open_popSend t s).mp ho
    by_cases hts : t = s
    · subst hts
      constructor
      · rw [σ.sessions_posted, if_pos rfl]
        exact fun hsending => absurd (hidle ho' hsending) hq
      · exact fun _ => ⟨_, List.mem_append_right _ (List.mem_singleton_self _), rfl⟩
    · obtain ⟨hidle', hbusy⟩ := hothers t hts ho'
      constructor
      · rwa [σ.sessions_posted, if_neg hts]
      · rw [σ.sessions_posted, if_neg hts]
        intro hsending
        obtain ⟨op, hop, hsess⟩ := hbusy hsending
        exact ⟨op, List.mem_append_left _ hop, hsess⟩
  · have hc' : ((σ.handed s false).sessions s).closing = false := by
      rw [Server.handed, Server.sessions_emit, Server.popSend, Server.sessions_set_self]
      exact hc
    obtain ⟨hts, ho⟩ := (open_closeSession hc' t).mp ho
    have hses : (closeSession s (σ.handed s false)).sessions t = σ.sessions t := by
      rw [sessions_closeSession hc', if_neg hts, Server.handed, Server.sessions_emit, Server.popSend,
        σ.sessions_set, if_neg hts]
    obtain ⟨hidle', hbusy⟩ := hothers t hts ((σ.open_popSend t s).mp ho)
    constructor
    · rwa [hses]
    · rw [hses, closeSession_sends]
      exact hbusy

theorem Awake.sendCompletion (h : Awake σ) (env : Env) {i : ℕ} {op : SendOp}
    (hop : σ.sends[i]? = some op) : Awake (sendCompletion env op.sess (σ.dequeueSend i)) := by
  refine awake_postSend env ?_ ?_
  · intro t hts ho
    obtain ⟨hidle, hbusy⟩ := h t ho
    refine ⟨hidle, ?_⟩
    intro hsending
    obtain ⟨op', hop', hsess⟩ := hbusy hsending
    obtain ⟨j, hj⟩ := List.mem_iff_getElem?.mp hop'
    refine ⟨op', List.mem_eraseIdx_iff_getElem?.mpr ⟨j, ?_, hj⟩, hsess⟩
    rintro rfl
    rw [hop] at hj
    exact hts ((congrArg SendOp.sess (Option.some.inj hj)).trans hsess).symm
  · exact fun ho => (h op.sess ho).idle

theorem Awake.step (h : Awake σ) (hb : Books max σ) {e : Event} (hstep : step env σ e = some σ') :
    Awake σ' := by
  cases step_cases hstep with
  | @accept i fuel op _ hop haccept =>
    have hdeq : Awake (σ.dequeueAccept i) := h.same rfl rfl
    exact hdeq.acceptCompletion (hb.side _ σ.closedSocks) haccept
  | fill hop hd hlen => exact h.same rfl rfl
  | @recv i op data _ hop hd hrecv =>
    have hdeq : Awake (σ.dequeueRecv i) := h.same rfl rfl
    exact hdeq.recvCompletion (hb.dequeueRecv i) (hb.recvs op (List.mem_of_getElem? hop)) hrecv
  | send hop => exact h.sendCompletion env hop
  | enqueueSend hid => exact (h.but _).enqueueSend env hb hid _
  | broadcast => exact h.broadcast env hb _ _
  | closeSession hid => exact h.close _

theorem awake_run {maxSessions n fuel : ℕ} {σ₀ : Server} {ok : Server → Event → Prop}
    {es : List Event} (hstart : start env maxSessions n fuel = some σ₀)
    (h : Exec (IocpChat.step env) ok σ₀ es σ) : Awake σ := by
  refine invariant_run (P := Awake) hstart ?_ ?_ h
  · exact fun acc socks => (awake_new maxSessions).same rfl rfl
  · exact fun σ e σ' hb hw _ hstep => hw.step hb hstep

/-- In every state between handlers an open Session that has something to send has a send in
flight. -/
theorem never_stranded {maxSessions n fuel : ℕ} {σ₀ σ : Server} {es : List Event}
    (hstart : start env maxSessions n fuel = some σ₀)
    (h : Exec (step env) (fun _ _ => True) σ₀ es σ) {s : ℕ} (ho : σ.Open s)
    (hqueue : (σ.sessions s).sendQueue ≠ []) :
    (σ.sessions s).sending = true ∧ ∃ op ∈ σ.sends, op.sess = s := by
  have hawake := awake_run hstart h s ho
  have hsending : (σ.sessions s).sending = true := by
    by_contra hidle
    exact hqueue (hawake.idle (Bool.eq_false_iff.mpr hidle))
  exact ⟨hsending, hawake.busy hsending⟩

theorem never_stranded_conversation : ∃ σ : Server, ∃ op ∈ σ.sends, op.sess = 1 := by
  obtain ⟨σ₀, σ, hstart, hrun, hclosing, hid, hqueue⟩ : ∃ σ₀ σ, start .calm 2 2 1 = some σ₀ ∧
      Exec (step .calm) (fun _ _ => True) σ₀ conversation σ ∧ (σ.sessions 1).closing = false ∧
        (σ.sessions 1).id = 1 ∧ (σ.sessions 1).sendQueue ≠ [] := exists_run (by decide +kernel)
  exact ⟨σ, (never_stranded hstart hrun ⟨hclosing, by simp [hid]⟩ hqueue).2⟩

end IocpChat
