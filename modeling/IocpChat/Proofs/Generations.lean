import IocpChat.Proofs.Bookkeeping
import IocpChat.Spec.Generations

/-! A completion carries a Session, not a connection. It concerns the connection it
was posted for as long as no accept takes a Session with operations in flight. -/

namespace IocpChat

open Relation (ReflTransGen)
open Runs (Exec)

variable {env : Env} {cur : ℕ} {σ σ' : Server}

/-- Every operation in flight was posted for the connection its Session carries. -/
structure Current (σ : Server) : Prop where
  recvs : ∀ op ∈ σ.recvs, (σ.sessions op.sess).id = op.conn
  sends : ∀ op ∈ σ.sends, (σ.sessions op.sess).id = op.conn

theorem Current.congr (h : Current σ) (hid : ∀ t, (σ'.sessions t).id = (σ.sessions t).id)
    (hrecvs : ∀ op ∈ σ'.recvs, op ∈ σ.recvs ∨ (σ.sessions op.sess).id = op.conn)
    (hsends : ∀ op ∈ σ'.sends, op ∈ σ.sends ∨ (σ.sessions op.sess).id = op.conn) :
    Current σ' where
  recvs op hop := by
    rw [hid]
    exact (hrecvs op hop).elim (h.recvs op) id
  sends op hop := by
    rw [hid]
    exact (hsends op hop).elim (h.sends op) id

theorem Act.sends {c : Option ℕ} {N : Effect → Prop} (hact : Act env c N σ σ') :
    ∀ op ∈ σ'.sends, op ∈ σ.sends ∨ (σ.sessions op.sess).id = op.conn := by
  cases hact with
  | hand t ho =>
    intro op hop
    rcases List.mem_append.mp hop with hop | hop
    · exact .inl hop
    · rw [List.mem_singleton.mp hop]
      exact .inr rfl
  | fail t ho hf =>
    intro op hop
    rw [closeSession_sends] at hop
    exact .inl hop
  | close s hs ho =>
    intro op hop
    rw [closeSession_sends] at hop
    exact .inl hop
  | _ => exact fun op hop => .inl hop

theorem Current.move (h : Current σ) (hm : Move env Idle σ σ') : Current σ' := by
  cases hm with
  | work hw =>
    cases hw with
    | act hact =>
      exact h.congr hact.kept.id (fun op hop => .inl (hact.kept.recvs ▸ hop)) hact.sends
    | ring r => exact h.congr (σ.id_setRx _ · r) (fun _ => .inl) fun _ => .inl
    | mark e he => exact ⟨h.recvs, h.sends⟩
  | recvPosted _ s ho =>
    refine h.congr (fun _ => rfl) (fun op hop => ?_) fun _ => .inl
    rcases List.mem_append.mp hop with hop | hop
    · exact .inl hop
    · rw [List.mem_singleton.mp hop]
      exact .inr rfl
  | recvRefused _ s ho =>
    refine h.congr (closeSession_id s · _) (fun op hop => ?_) fun op hop => ?_
    · rw [closeSession_recvs] at hop
      exact .inl hop
    · rw [closeSession_sends] at hop
      exact .inl hop
  | side _ acc socks => exact ⟨h.recvs, h.sends⟩
  | connect _ s free sock hf hC =>
    -- nothing in flight refers to the Session that gets a new id
    rw [connect_eq]
    refine ⟨fun op hop => ?_, fun op hop => ?_⟩
    · change ((σ.set s _).sessions op.sess).id = op.conn
      rw [σ.sessions_set, if_neg (hC.1 op hop)]
      exact h.recvs op hop
    · change ((σ.set s _).sessions op.sess).id = op.conn
      rw [σ.sessions_set, if_neg (hC.2 op hop)]
      exact h.sends op hop
  | fill _ i op data hop hd hlen =>
    refine ⟨fun op' hop' => ?_, h.sends⟩
    rcases List.mem_or_eq_of_mem_set hop' with hop' | rfl
    · exact h.recvs op' hop'
    · exact h.recvs op (List.mem_of_getElem? hop)
  | dequeueRecv _ i => exact ⟨fun op hop => h.recvs op (List.mem_of_mem_eraseIdx hop), h.sends⟩
  | dequeueSend _ i => exact ⟨h.recvs, fun op hop => h.sends op (List.mem_of_mem_eraseIdx hop)⟩

theorem Current.moves (h : Current σ) (hm : Moves env Idle σ σ') : Current σ' := by
  induction hm with
  | refl => exact h
  | tail _ hmove ih => exact ih.move hmove

theorem Current.step {max : ℕ} {e : Event} (h : Current σ) (hb : Books max σ)
    (hok : AcceptsFrom Idle σ e) (hstep : step env σ e = some σ') : Current σ' :=
  h.moves (step_moves hb.grounded (hok.all fun _ _ hC => hC) hstep)

/-- Everywhere an accept takes an idle Session, operations and Sessions agree. -/
theorem current_run {maxSessions n fuel : ℕ} {σ₀ : Server} {ok : Server → Event → Prop}
    {es : List Event} (hstart : start env maxSessions n fuel = some σ₀)
    (hok : ∀ σ e, ok σ e → AcceptsFrom Idle σ e) (h : Exec (step env) ok σ₀ es σ) :
    Current σ := by
  refine invariant_run (P := Current) hstart (fun acc socks => ?_) ?_ h
  · exact ⟨fun op hop => by simp [Server.side, Server.new] at hop,
      fun op hop => by simp [Server.side, Server.new] at hop⟩
  · exact fun σ e σ' hb hcur he hstep => hcur.step hb (hok σ e he) hstep

/-! ### Handling a completion -/

theorem Works.rx_of_ne (h : Works env cur σ σ') {t : ℕ} (ht : t ≠ cur) :
    (σ'.sessions t).rx = (σ.sessions t).rx := by
  induction h with
  | refl => rfl
  | @tail τ _ _ hw ih =>
    cases hw with
    | act hact => rw [hact.kept.rx, ih]
    | ring r =>
      rw [← ih]
      change ((τ.set cur _).sessions t).rx = _
      rw [τ.sessions_set, if_neg ht]
    | mark e he => exact ih

theorem closeSession_rx (s t : ℕ) (σ : Server) :
    ((closeSession s σ).sessions t).rx = (σ.sessions t).rx := by
  cases hc : (σ.sessions s).closing with
  | true => rw [closeSession_of_closing hc]
  | false =>
    rw [sessions_closeSession hc]
    split_ifs with ht
    · rw [ht]
    · rfl

theorem postRecv_rx (env : Env) (s t : ℕ) (σ : Server) :
    ((postRecv env s σ).sessions t).rx = (σ.sessions t).rx := by
  rcases postRecv_cases env s σ with ⟨-, he⟩ | ⟨hc, he | he⟩ <;> rw [he]
  · rfl
  · rw [closeSession_rx]
    rfl

theorem recvCompletion_rx_of_ne {s t n : ℕ} (hid : (σ.sessions s).id ≠ 0) (hk : σ.Known)
    (h : recvCompletion env s n σ = some σ') (ht : t ≠ s) :
    (σ'.sessions t).rx = (σ.sessions t).rx := by
  obtain ⟨τ, hτ, rfl | rfl⟩ := recvCompletion_works hid hk h
  · exact hτ.rx_of_ne ht
  · rw [postRecv_rx, hτ.rx_of_ne ht]

theorem recvCompletion_isSome {s n : ℕ} (h : (σ.sessions s).rxBuf ≠ none) :
    ∃ σ', recvCompletion env s n σ = some σ' := by
  simp only [recvCompletion]
  split_ifs with h0 hnull hover
  · exact ⟨_, rfl⟩
  · exact absurd (Option.isNone_iff_eq_none.mp hnull.1) h
  · exact ⟨_, rfl⟩
  · exact ⟨_, rfl⟩

theorem recvCompletion_closed {s : ℕ} (h : (σ.sessions s).closing = true) :
    recvCompletion env s 0 σ = some σ := by
  rw [recvCompletion_zero, closeSession_of_closing h]

theorem untouched_dequeueRecv (i t : ℕ) : Untouched σ (σ.dequeueRecv i) t :=
  ⟨rfl, fun _ => .rfl, rfl⟩

theorem untouched_dequeueSend (i t : ℕ) : Untouched σ (σ.dequeueSend i) t :=
  ⟨rfl, fun _ => .rfl, rfl⟩

theorem Server.closing_of_not_open {s : ℕ} (hid : (σ.sessions s).id ≠ 0) (h : ¬ σ.Open s) :
    (σ.sessions s).closing = true := by
  by_contra hc
  exact h (Server.open_of_not_closing hc hid)

/-! ### What stays with a Session -/

section Confined

variable {max s : ℕ}

theorem Confined.refl (s : ℕ) (σ : Server) : Confined s σ σ :=
  ⟨fun _ _ => rfl, rfl, fun _ _ _ => .rfl, fun _ => .inl⟩

theorem Confined.trans {σ'' : Server} (h : Confined s σ σ') (h' : Confined s σ' σ'') :
    Confined s σ σ'' where
  sessions t ht := (h'.sessions t ht).trans (h.sessions t ht)
  sock := h'.sock.trans h.sock
  entries k t ht := (h'.entries k t ht).trans (h.entries k t ht)
  sockets sock hsock := by
    rcases h'.sockets sock hsock with hold | hown
    · exact h.sockets sock hold
    · exact .inr (h.sock.symm.trans hown)

theorem confined_set {x : Session} (h : x.sock = (σ.sessions s).sock) : Confined s σ (σ.set s x) where
  sessions t ht := by rw [σ.sessions_set, if_neg ht]
  sock := by rw [σ.sessions_set_self, h]
  entries _ _ _ := .rfl
  sockets _ := .inl

theorem confined_emit (s : ℕ) (σ : Server) (e : Effect) : Confined s σ (σ.emit e) :=
  ⟨fun _ _ => rfl, rfl, fun _ _ _ => .rfl, fun _ => .inl⟩

theorem confined_closeSession (hb : Books max σ) (s : ℕ) : Confined s σ (closeSession s σ) := by
  cases hc : (σ.sessions s).closing with
  | true =>
    rw [closeSession_of_closing hc]
    exact .refl s σ
  | false =>
    have hother (t : ℕ) (ht : t ≠ s) : σ.sessionTable.lookup (σ.sessions s).id ≠ some t := by
      intro hlook
      obtain ⟨ho, hid⟩ := (hb.table _ t).mp hlook
      have hself := (hb.table _ s).mpr ⟨⟨hc, hid ▸ ho.2⟩, rfl⟩
      exact ht (Option.some.inj (hlook.symm.trans hself))
    refine ⟨?_, ?_, ?_, ?_⟩
    · intro t ht
      rw [sessions_closeSession hc, if_neg ht]
    · rw [sessions_closeSession hc, if_pos rfl]
    · intro k t ht
      simp only [closeSession, hc, Bool.false_eq_true, if_false]
      by_cases hk : k = (σ.sessions s).id
      · rw [hk, AList.lookup_erase]
        exact iff_of_false (Option.some_ne_none t).symm (hother t ht)
      · rw [AList.lookup_erase_ne hk]
    · intro sock hsock
      simp only [closeSession, hc, Bool.false_eq_true, if_false, List.mem_append,
        Option.mem_toList] at hsock
      exact hsock

theorem confined_postSend (hb : Books max σ) (s : ℕ) : Confined s σ (postSend env s σ) := by
  cases hc : (σ.sessions s).closing with
  | true =>
    rw [postSend_of_closing hc]
    exact .refl s σ
  | false =>
    have hpop : Confined s σ (σ.popSend s) := confined_set rfl
    have hhand (ok : Bool) : Confined s σ (σ.handed s ok) := hpop.trans (confined_emit s _ _)
    simp only [postSend, hc, Bool.false_eq_true, if_false]
    split_ifs with hnil hok
    · exact hpop.trans (confined_set rfl)
    · rw [hok]
      exact ⟨(hhand true).sessions, (hhand true).sock, (hhand true).entries, (hhand true).sockets⟩
    · rw [Bool.not_eq_true] at hok
      rw [hok]
      exact (hhand false).trans (confined_closeSession (hb.handed s false) s)

theorem confined_enqueueSend (hb : Books max σ) (s : ℕ) (data : List UInt8) :
    Confined s σ (enqueueSend env s data σ) := by
  cases hc : (σ.sessions s).closing with
  | true =>
    rw [enqueueSend_of_closing hc]
    exact .refl s σ
  | false =>
    have hpush : Confined s σ (σ.push s data) := confined_set rfl
    have hpushed : Books max (σ.push s data) := hb.setQuiet rfl rfl rfl
    simp only [enqueueSend, hc, Bool.false_eq_true, if_false]
    split_ifs
    · exact hpush
    · have hclaimed : Books max ((σ.push s data).setSending s true) := hpushed.setQuiet rfl rfl rfl
      have hclaim : Confined s (σ.push s data) ((σ.push s data).setSending s true) := confined_set rfl
      exact (hpush.trans hclaim).trans (confined_postSend hclaimed s)

theorem confined_postRecv (hb : Books max σ) (s : ℕ) : Confined s σ (postRecv env s σ) := by
  rcases postRecv_cases env s σ with ⟨-, he⟩ | ⟨-, he | he⟩ <;> rw [he]
  · exact .refl s σ
  · exact ⟨fun _ _ => rfl, rfl, fun _ _ _ => .rfl, fun _ => .inl⟩
  · exact (confined_emit s σ _).trans (confined_closeSession (hb.emit _) s)

/-- A packet of which the others are not told concerns its Session only. -/
theorem processOnePacket_confined (hb : Books max σ) {packet : List UInt8}
    (hchat : isChat packet = false) (hexit : isExit packet = false) :
    Confined s σ (processOnePacket env s packet σ) := by
  rw [Bool.eq_false_iff] at hchat hexit
  unfold processOnePacket sizeMismatch
  dsimp only
  split_ifs with hlen hvalid hlogin hls hc hcs he hes hcount hus
  any_goals exact confined_emit s σ _
  · exact (confined_enqueueSend hb s _).trans (confined_emit s _ _)
  · exact absurd (dispatches_iff.mpr ⟨hlen, hvalid, hc, hcs⟩) hchat
  · exact absurd (dispatches_iff.mpr ⟨hlen, hvalid, he, hes⟩) hexit
  · exact (confined_emit s σ _).trans (confined_enqueueSend (hb.emit _) s _)

theorem books_broadcast (hb : Books max σ) (data : List UInt8) (exclude : Option ℕ) :
    Books max (broadcast env data exclude σ) := by
  have hacts : Acts env none (fun _ => True) σ _ :=
    broadcast_acts hb.grounded.known data exclude
  exact hb.acts hacts

theorem Confined.spreads (h : Confined s σ σ') : Spreads env s σ σ' := .single (.inl h)

theorem onPacket_spreads (hb : Books max σ) (s : ℕ) (packet : List UInt8) :
    Spreads env s σ (onPacket env s packet σ) := by
  have hcast (data : List UInt8) (e e' : Effect) :
      Spreads env s σ (broadcast env data (some s) ((σ.emit e).emit e')) :=
    (((confined_emit s σ e).trans (confined_emit s _ e')).spreads).tail (.inr ⟨data, rfl⟩)
  unfold onPacket
  by_cases hchat : isChat packet = true
  · rw [if_neg (dispatches_iff.mp hchat).1, processOnePacket_chat hchat]
    exact hcast _ _ _
  by_cases hexit : isExit packet = true
  · rw [if_neg (dispatches_iff.mp hexit).1, processOnePacket_exit hexit, handleExit_eq hexit]
    exact (hcast _ _ _).tail
      (.inl (confined_closeSession (books_broadcast ((hb.emit _).emit _) _ _) s))
  · split_ifs
    · exact (confined_emit s σ _).spreads
    · exact (processOnePacket_confined hb (by simpa using hchat) (by simpa using hexit)).spreads

theorem Drained.spreads (h : Drained env s σ σ') (hb : Books max σ) (hid : (σ.sessions s).id ≠ 0) :
    Spreads env s σ σ' := by
  induction h with
  | waits σ hv => exact (confined_postRecv hb s).spreads
  | stops σ text hv =>
    exact (((confined_emit s σ _).trans (confined_emit s _ _)).trans
      (confined_closeSession ((hb.emit _).emit _) s)).spreads
  | packet σ σ' n rx hv hcap hrx hrest ih =>
    have hk := hb.grounded.known
    have htaken : Books max (σ.setRx s rx) := hb.setQuiet rfl rfl rfl
    have hring : Confined s σ (σ.setRx s rx) := confined_set rfl
    set packet := (σ.sessions s).rx.content.take n
    set e : Effect := .packet s (σ.sessions s).id packet
    have hcall : Spreads env s ((σ.setRx s rx).emit e) (packetDone env s n rx σ) :=
      onPacket_spreads (htaken.emit e) s packet
    have hdone := (htaken.emit e).acts (packetDone_handles env n rx hid hk)
    refine (hring.trans (confined_emit s _ e)).spreads.trans (hcall.trans ?_)
    exact ih hdone (packetDone_id env n rx hid hk)

theorem recvCompletion_spreads {n : ℕ} (hb : Books max σ) (hid : (σ.sessions s).id ≠ 0)
    (h : recvCompletion env s n σ = some σ') : Spreads env s σ σ' := by
  set data := σ.readMem (σ.sessions s).rxBuf n
  set rx := ((σ.sessions s).rx.append data n).2
  set τ := (σ.setRx s rx).emit (.received s (σ.sessions s).id data)
  have hring : Confined s σ (σ.setRx s rx) := confined_set rfl
  have hstored : Confined s σ τ := hring.trans (confined_emit s _ _)
  have hring' : Books max (σ.setRx s rx) := hb.setQuiet rfl rfl rfl
  have hb' : Books max τ := hring'.emit _
  have hid' : (τ.sessions s).id ≠ 0 := (σ.id_setRx s s rx).trans_ne hid
  simp only [recvCompletion] at h
  split_ifs at h with h0 hnull hover <;> simp only [Option.some.injEq] at h <;> subst h
  · exact (confined_closeSession hb s).spreads
  · exact ((hstored.trans (confined_emit s _ _)).trans
      (confined_closeSession (hb'.emit _) s)).spreads
  · have hdrained : Drained env s τ (drain env s (rx.readable + 1) [] τ) := by
      apply drain_drained _ _ hid' hb'.grounded.known
      rw [Server.sessions_emit, σ.rx_setRx, rx.content_length]
      exact Nat.lt_succ_self _
    exact hstored.spreads.trans (hdrained.spreads hb' hid')

end Confined

theorem untouched_of_open {s k : ℕ} (hk : (σ.sessions s).id = k) (ho : σ.Open s) (t : ℕ)
    (ht : (σ.sessions t).id ≠ k) (hor : t = s ∨ ¬ σ.Open s) : Untouched σ σ' t := by
  rcases hor with rfl | hclosed
  · exact absurd hk ht
  · exact absurd ho hclosed

theorem confined_dequeueRecv (s i : ℕ) : Confined s σ (σ.dequeueRecv i) :=
  ⟨fun _ _ => rfl, rfl, fun _ _ _ => .rfl, fun _ => .inl⟩

theorem confined_dequeueSend (s i : ℕ) : Confined s σ (σ.dequeueSend i) :=
  ⟨fun _ _ => rfl, rfl, fun _ _ _ => .rfl, fun _ => .inl⟩

theorem isolated_recv {max i : ℕ} {op : RecvOp} {data : List UInt8} (hb : Books max σ)
    (hcur : Current σ) (hop : op ∈ σ.recvs)
    (hlate : data = [] ∨ (σ.sessions op.sess).closing = false) :
    ∃ σ', recvCompletion env op.sess data.length (σ.dequeueRecv i) = some σ' ∧
      Isolated env (data ≠ []) σ σ' op.sess op.conn := by
  have hid := hb.recvs op hop
  have hb' := hb.dequeueRecv i
  by_cases ho : σ.Open op.sess
  · obtain ⟨σ', hσ'⟩ : ∃ σ', recvCompletion env op.sess data.length (σ.dequeueRecv i) = some σ' :=
      recvCompletion_isSome (hb.open_buf op.sess ho)
    have hid' : ((σ.dequeueRecv i).sessions op.sess).id ≠ 0 := hid
    refine ⟨σ', hσ', untouched_of_open (hcur.recvs op hop) ho, ?_, ?_, ?_⟩
    · intro hnone
      obtain rfl : data = [] := by simpa using hnone
      obtain rfl := Option.some.inj (recvCompletion_zero env op.sess _ ▸ hσ')
      exact (confined_dequeueRecv op.sess i).trans (confined_closeSession hb' op.sess)
    · exact (confined_dequeueRecv op.sess i).spreads.trans (recvCompletion_spreads hb' hid' hσ')
    · intro t ht
      have hrx := recvCompletion_rx_of_ne hid' hb'.grounded.known hσ' ht
      exact hrx
  · -- the connection was closed, so nothing came and `CloseSession` returns at once
    have hclosing := Server.closing_of_not_open hid ho
    obtain rfl : data = [] := hlate.resolve_right (by simp [hclosing])
    have hstill : ((σ.dequeueRecv i).sessions op.sess).closing = true := hclosing
    have hconfined : Confined op.sess σ (σ.dequeueRecv i) := confined_dequeueRecv op.sess i
    refine ⟨σ.dequeueRecv i, recvCompletion_closed hstill, ?_⟩
    exact ⟨fun t _ _ => untouched_dequeueRecv i t, fun _ => hconfined, hconfined.spreads, fun t _ => rfl⟩

theorem isolated_send {max i : ℕ} {op : SendOp} (hb : Books max σ) (hcur : Current σ)
    (hop : op ∈ σ.sends) :
    Isolated env false σ (sendCompletion env op.sess (σ.dequeueSend i)) op.sess op.conn := by
  have hid : ((σ.dequeueSend i).sessions op.sess).id ≠ 0 := hb.sends op hop
  have hconfined : Confined op.sess σ (sendCompletion env op.sess (σ.dequeueSend i)) :=
    (confined_dequeueSend op.sess i).trans (confined_postSend (hb.dequeueSend i) op.sess)
  have hacts : Handles env none (σ.dequeueSend i)
      (sendCompletion env op.sess (σ.dequeueSend i)) := postSend_acts hid
  refine ⟨?_, fun _ => hconfined, hconfined.spreads, fun t _ => hacts.kept.rx t⟩
  by_cases ho : σ.Open op.sess
  · exact untouched_of_open (hcur.sends op hop) ho
  · have hstill : ((σ.dequeueSend i).sessions op.sess).closing = true :=
      Server.closing_of_not_open hid ho
    rw [sendCompletion, postSend_of_closing hstill]
    exact fun t _ _ => untouched_dequeueSend i t

/-- As long as accepts take idle Sessions and receives of closed connections come
without bytes, every completion is handled and stays with its connection. -/
theorem completions_isolated {maxSessions n fuel : ℕ} {σ₀ σ : Server} {es : List Event} {e : Event}
    {s k : ℕ} (hstart : start env maxSessions n fuel = some σ₀)
    (h : Exec (step env) Separate σ₀ es σ) (hok : Separate σ e)
    (hc : completes σ e = some (s, k)) :
    ∃ σ', step env σ e = some σ' ∧ Isolated env (brings σ e) σ σ' s k := by
  have hb := books_run hstart h
  have hcur := current_run hstart (fun _ _ hok => hok.1) h
  cases e with
  | recv i =>
    obtain ⟨op, hop, hdata⟩ := Option.bind_eq_some_iff.mp hc
    obtain ⟨data, hd, hpair⟩ := Option.map_eq_some_iff.mp hdata
    obtain ⟨rfl, rfl⟩ := Prod.mk.inj hpair
    have hlate := hok.2 op hop data hd
    have hbrings : brings σ (.recv i) = decide (data ≠ []) := by simp [brings, hop, hd]
    rw [step_recv hop hd, hbrings]
    exact isolated_recv hb hcur (List.mem_of_getElem? hop) hlate
  | send i =>
    obtain ⟨op, hop, hpair⟩ := Option.map_eq_some_iff.mp hc
    obtain ⟨rfl, rfl⟩ := Prod.mk.inj hpair
    have hstep : step env σ (.send i) = some (sendCompletion env op.sess (σ.dequeueSend i)) := by
      simp only [step, hop]
    exact ⟨_, hstep, isolated_send hb hcur (List.mem_of_getElem? hop)⟩
  | _ => simp [completes] at hc

/-- Client 1 hangs up while its greeting is in flight; client 2 gets its Session and
a greeting of its own. -/
def lateSend : List Event := [.accept 0 1, .fill 0 [], .recv 0, .accept 0 1]

/-- The completion of the first greeting clears the flag of the second. -/
theorem late_completion_reaches :
    ∃ (maxSessions n fuel : ℕ) (σ₀ σ σ' : Server) (es : List Event) (e : Event) (s k : ℕ),
      start .calm maxSessions n fuel = some σ₀ ∧
        Exec (step .calm) (fun _ _ => True) σ₀ es σ ∧ completes σ e = some (s, k) ∧
        step .calm σ e = some σ' ∧ σ.Open s ∧ (σ.sessions s).id ≠ k ∧ ¬ Untouched σ σ' s := by
  obtain ⟨σ₀, σ, hstart, hrun, hc, ⟨hopen, hid⟩, hsending, hstep⟩ :
      ∃ σ₀ σ, start .calm 1 1 1 = some σ₀ ∧ Exec (step .calm) (fun _ _ => True) σ₀ lateSend σ ∧
        completes σ (.send 0) = some (0, 1) ∧
        ((σ.sessions 0).closing = false ∧ (σ.sessions 0).id = 2) ∧
        (σ.sessions 0).sending = true ∧
        (step .calm σ (.send 0)).any (fun σ' => !(σ'.sessions 0).sending) = true :=
    exists_run (by decide +kernel)
  obtain ⟨σ', hσ', hclear⟩ := (Option.any_eq_true ..).mp hstep
  refine ⟨1, 1, 1, σ₀, σ, σ', lateSend, .send 0, 0, 1, hstart, hrun, hc, hσ',
    ⟨hopen, by simp [hid]⟩, by simp [hid], fun hsame => ?_⟩
  rw [hsame.session, hsending] at hclear
  contradiction

/-- Client 1 is gone when the receive posted for it completes without bytes. -/
def lateRecv : List Event := [.accept 0 1, .accept 0 1, .send 0, .closeSession 1, .fill 0 []]

theorem completions_isolated_late :
    ∃ σ σ' : Server, ¬ σ.Open 1 ∧ step .calm σ (.recv 0) = some σ' ∧
      Isolated .calm (brings σ (.recv 0)) σ σ' 1 1 := by
  obtain ⟨σ₀, σ, hstart, hrun, hclosing, hok, hc⟩ :
      ∃ σ₀ σ, start .calm 2 1 1 = some σ₀ ∧ Exec (step .calm) Separate σ₀ lateRecv σ ∧
        (σ.sessions 1).closing = true ∧ Separate σ (.recv 0) ∧
        completes σ (.recv 0) = some (1, 1) := exists_run (by decide +kernel)
  obtain ⟨σ', hσ', hiso⟩ := completions_isolated hstart hrun hok hc
  exact ⟨σ, σ', fun ho => by simp [ho.1] at hclosing, hσ', hiso⟩

end IocpChat
