import IocpChat.Lib.Runs
import IocpChat.Proofs.Framer
import IocpChat.Spec.Books

/-! Completion handlers as moves: the acts of packet handlers, reads from the ring,
posted operations and the connection of a Session. What every move keeps, every
run of the server keeps. -/

namespace IocpChat

open Relation (ReflTransGen)
open Runs (retry retry_invariant)

variable {env : Env} {cur : ℕ} {σ σ' : Server}

abbrev Works (env : Env) (cur : ℕ) : Server → Server → Prop := ReflTransGen (Work env cur)

theorem Acts.works (h : Handles env (some cur) σ σ') : Works env cur σ σ' :=
  ReflTransGen.mono (fun _ _ hact => Work.act hact) _ _ h

theorem Works.id (h : Works env cur σ σ') (t : ℕ) :
    (σ'.sessions t).id = (σ.sessions t).id := by
  induction h with
  | refl => rfl
  | tail _ hw ih =>
    cases hw with
    | act hact => rw [hact.kept.id, ih]
    | ring r => rw [Server.id_setRx, ih]
    | mark e he => exact ih

theorem Works.recvs (h : Works env cur σ σ') : σ'.recvs = σ.recvs := by
  induction h with
  | refl => rfl
  | tail _ hw ih =>
    cases hw with
    | act hact => rw [hact.kept.recvs, ih]
    | ring r => exact ih
    | mark e he => exact ih

/-- The loop of `RecvCompletion` ends with a receive being posted, or not. -/
theorem Drained.works (h : Drained env cur σ σ') (hid : (σ.sessions cur).id ≠ 0) (hk : σ.Known) :
    ∃ τ, Works env cur σ τ ∧ (σ' = τ ∨ σ' = postRecv env cur τ) := by
  induction h with
  | waits σ hv => exact ⟨σ, .refl, .inr rfl⟩
  | stops σ text hv =>
    have hlog : Works env cur σ (σ.emit (.log .warn text)) := .single (.mark σ _ rfl)
    exact ⟨_, (hlog.tail (.mark _ _ (by rfl))).trans (closeSession_acts (by exact hid)).works,
      .inl rfl⟩
  | packet σ σ' n rx hv hcap hrx hrest ih =>
    have hring : Works env cur σ (σ.setRx cur rx) := .single (.ring σ rx)
    have hcall := (packetDone_handles env n rx hid hk).works
    obtain ⟨τ, hτ, hend⟩ := ih (packetDone_id env n rx hid hk) (packetDone_known env n rx hid hk)
    exact ⟨τ, (hring.tail (.mark _ _ rfl)).trans (hcall.trans hτ), hend⟩

theorem recvCompletion_works {n : ℕ} (hid : (σ.sessions cur).id ≠ 0) (hk : σ.Known)
    (h : recvCompletion env cur n σ = some σ') :
    ∃ τ, Works env cur σ τ ∧ (σ' = τ ∨ σ' = postRecv env cur τ) := by
  set data := σ.readMem (σ.sessions cur).rxBuf n
  set rx := ((σ.sessions cur).rx.append data n).2
  set τ₀ := (σ.setRx cur rx).emit (.received cur (σ.sessions cur).id data)
  have hstored : Works env cur σ τ₀ :=
    (ReflTransGen.single (Work.ring σ rx)).tail (.mark _ _ rfl)
  have hid' : (τ₀.sessions cur).id ≠ 0 := (σ.id_setRx cur cur rx).trans_ne hid
  have hk' : τ₀.Known := hk.setRx cur rx
  simp only [recvCompletion] at h
  split_ifs at h with h0 hnull hover <;> simp only [Option.some.injEq] at h <;> subst h
  · exact ⟨_, (closeSession_acts hid).works, .inl rfl⟩
  · exact ⟨_, (hstored.tail (.mark _ _ (by rfl))).trans (closeSession_acts (by exact hid')).works,
      .inl rfl⟩
  · have hdrained : Drained env cur τ₀ (drain env cur (rx.readable + 1) [] τ₀) := by
      apply drain_drained _ _ hid' hk'
      rw [Server.sessions_emit, σ.rx_setRx, rx.content_length]
      exact Nat.lt_succ_self _
    obtain ⟨τ, hτ, hend⟩ := hdrained.works hid' hk'
    exact ⟨τ, hstored.trans hτ, hend⟩

/-! ### Posting receives and accepts -/

theorem postRecv_cases (env : Env) (s : ℕ) (σ : Server) :
    (σ.sessions s).closing = true ∧ postRecv env s σ = σ ∨
      (σ.sessions s).closing = false ∧ (postRecv env s σ = σ.recvPosted s ∨
        postRecv env s σ = closeSession s (σ.emit (.wsaRecv s (σ.sessions s).id false))) := by
  cases hc : (σ.sessions s).closing with
  | true => exact .inl ⟨rfl, by simp [postRecv, hc]⟩
  | false =>
    refine .inr ⟨rfl, ?_⟩
    cases hf : env.wsaRecvFails σ s with
    | true => exact .inr (by simp [postRecv, hc, hf])
    | false => exact .inl (by simp [postRecv, hc, hf, Server.recvPosted, Server.emit])

/-- The `AcceptEx` of an attempt is in flight. -/
def Server.postedAccept (σ : Server) : Server :=
  σ.side
    { σ.accepts with
      nextSock := σ.accepts.nextSock + 1
      nextOv := σ.accepts.nextOv + 1
      inFlight := σ.accepts.inFlight ++ [⟨σ.accepts.nextOv, some σ.accepts.nextSock⟩] }
    σ.closedSocks

theorem postAccept_eq_retry (env : Env) (fuel : ℕ) (σ : Server) : postAccept env fuel σ =
    retry env.attemptFails (Server.failedAccept env) Server.postedAccept fuel σ := by
  induction fuel generalizing σ with
  | zero => rfl
  | succ fuel ih =>
    unfold postAccept retry Env.attemptFails
    cases hsock : env.wsaSocketFails σ with
    | true =>
      have hnone : env.attemptSock σ = none := if_pos hsock
      simp only [Bool.true_or, if_true, Option.isNone_none, ih, Server.failedAccept, hnone]
      rfl
    | false =>
      have hsome : env.attemptSock σ = some σ.accepts.nextSock := if_neg (by rw [hsock]; decide)
      simp only [Bool.false_or, Bool.false_eq_true, if_false, Option.isNone_some, ih,
        Server.failedAccept, hsome]
      rfl

theorem postAccept_side {fuel : ℕ} (h : postAccept env fuel σ = some σ') :
    ∃ acc socks, σ' = σ.side acc socks := by
  rw [postAccept_eq_retry] at h
  let sided (τ : Server) : Prop := ∃ acc socks, τ = σ.side acc socks
  refine retry_invariant (P := sided) (Q := sided) ?_ ?_ h ⟨_, _, rfl⟩
  · rintro _ ⟨acc, socks, rfl⟩ -
    exact ⟨_, _, rfl⟩
  · rintro _ ⟨acc, socks, rfl⟩ -
    exact ⟨_, _, rfl⟩

/-- An accept finds the pool empty, or connects the Session on top of it; then another
accept is posted. -/
theorem acceptCompletion_returns {fuel : ℕ} {op : AcceptOp}
    (h : acceptCompletion env fuel op σ = some σ') :
    (σ.free = [] ∧ ∃ τ, postAccept env fuel
        { σ with closedSocks := σ.closedSocks ++ op.acceptSock.toList } = some τ ∧
      σ' = τ.deleteOv op.ov) ∨
      ∃ s free τ, σ.free = s :: free ∧
        postAccept env fuel (postRecv env s (connect s free op.acceptSock σ)) = some τ ∧
        σ' = (onClientConnected env s τ).deleteOv op.ov := by
  unfold acceptCompletion at h
  by_cases hfree : σ.free = []
  · have hacq : σ.acquire = none := by simp [Server.acquire, hfree]
    rw [hacq] at h
    obtain ⟨τ, hτ, hend⟩ := Option.bind_eq_some_iff.mp h
    simp only [Option.pure_def, Option.some.injEq] at hend
    exact .inl ⟨hfree, τ, hτ, hend.symm⟩
  · obtain ⟨s, free, hfree⟩ := List.exists_cons_of_ne_nil hfree
    have hacq : σ.acquire = some (s, { σ.set s { σ.sessions s with
        rx := (σ.sessions s).rx.clear, closing := false } with free }) := by
      simp [Server.acquire, hfree]
    rw [hacq] at h
    obtain ⟨τ, hτ, hend⟩ := Option.bind_eq_some_iff.mp h
    simp only [Option.pure_def, Option.some.injEq] at hend
    exact .inr ⟨s, free, τ, hfree, hτ, hend.symm⟩

theorem acceptCompletion_cases {fuel : ℕ} {op : AcceptOp}
    (h : acceptCompletion env fuel op σ = some σ') :
    (σ.free = [] ∧ ∃ acc socks, σ' = σ.side acc socks) ∨
      ∃ s free acc socks acc' socks', σ.free = s :: free ∧
        σ' = (onClientConnected env s
          ((postRecv env s (connect s free op.acceptSock σ)).side acc socks)).side acc' socks' := by
  rcases acceptCompletion_returns h with ⟨hfree, τ, hτ, rfl⟩ | ⟨s, free, τ, hfree, hτ, rfl⟩
  · obtain ⟨acc, socks, rfl⟩ := postAccept_side hτ
    exact .inl ⟨hfree, _, _, rfl⟩
  · obtain ⟨acc, socks, rfl⟩ := postAccept_side hτ
    exact .inr ⟨s, free, acc, socks, _, _, hfree, rfl⟩

/-! ### Moves -/

variable {C : Server → ℕ → Prop}

theorem Works.moves (h : Works env cur σ σ') : Moves env C σ σ' :=
  ReflTransGen.mono (fun _ _ hw => Move.work hw) _ _ h

theorem postRecv_moves {s : ℕ} (hid : (σ.sessions s).id ≠ 0) : Moves env C σ (postRecv env s σ) := by
  rcases postRecv_cases env s σ with ⟨-, he⟩ | ⟨hc, he | he⟩
  · rw [he]
  · rw [he]
    exact .single (.recvPosted σ s ⟨hc, hid⟩)
  · rw [he]
    exact .single (.recvRefused σ s ⟨hc, hid⟩)

theorem recvCompletion_moves {n : ℕ} (hid : (σ.sessions cur).id ≠ 0) (hk : σ.Known)
    (h : recvCompletion env cur n σ = some σ') : Moves env C σ σ' := by
  obtain ⟨τ, hτ, rfl | rfl⟩ := recvCompletion_works hid hk h
  · exact hτ.moves
  · exact hτ.moves.trans (postRecv_moves (by rwa [hτ.id]))

theorem Acts.moves {c : ℕ} (h : Handles env (some c) σ σ') : Moves env C σ σ' := h.works.moves

/-- Everything that completions refer to has been accepted. -/
structure Grounded (σ : Server) : Prop where
  known : σ.Known
  idGen : 0 < σ.sessionIdGen
  recvs : ∀ op ∈ σ.recvs, (σ.sessions op.sess).id ≠ 0
  sends : ∀ op ∈ σ.sends, (σ.sessions op.sess).id ≠ 0

/-! ### The memory of the receives -/

@[simp] theorem Server.readMem_length (σ : Server) (buf : Option ℕ) (n : ℕ) :
    (σ.readMem buf n).length = n := by
  simp [Server.readMem]

theorem Server.readMem_congr (h : σ'.mem = σ.mem) (buf : Option ℕ) (n : ℕ) :
    σ'.readMem buf n = σ.readMem buf n := by
  unfold Server.readMem
  rw [h]

/-- What the kernel stores is read from the buffer of the receive. -/
theorem Server.readMem_fill {i : ℕ} {op : RecvOp} {b : ℕ} (hb : op.buf = some b) (data : List UInt8) :
    (σ.fill i op data).readMem (some b) data.length = data := by
  have hslice := Circular.slice_blit (σ.mem b) 0 data
  simpa [Server.readMem, Server.fill, hb, Circular.slice] using hslice

/-- Other buffers keep what they hold. -/
theorem Server.readMem_fill_of_ne {i n : ℕ} {op : RecvOp} {b : ℕ} {buf : Option ℕ}
    (hb : op.buf = some b) (hne : buf ≠ some b) (data : List UInt8) :
    (σ.fill i op data).readMem buf n = σ.readMem buf n := by
  unfold Server.readMem
  cases buf with
  | none => rfl
  | some b' =>
    have hbb : b' ≠ b := fun he => hne (congrArg some he)
    simp [Server.fill, hb, hbb]

/-! ### What a step does -/

theorem connect_id (s : ℕ) (free : List ℕ) (sock : Option ℕ) (σ : Server) :
    ((connect s free sock σ).sessions s).id = σ.sessionIdGen := by
  simp [connect, assign, Server.set]

/-- A Session that becomes a connection has been accepted. -/
theorem connect_id_ne (hg : 0 < σ.sessionIdGen) (s : ℕ) (free : List ℕ) (sock : Option ℕ) :
    ((connect s free sock σ).sessions s).id ≠ 0 := by
  rw [connect_id]
  exact hg.ne'

theorem closeSession_id (s t : ℕ) (σ : Server) :
    ((closeSession s σ).sessions t).id = (σ.sessions t).id := by
  simp only [closeSession]
  split_ifs
  · rfl
  · change ((σ.set s _).sessions t).id = _
    rw [Server.sessions_set]
    split_ifs with h
    · rw [h]
    · rfl

theorem postRecv_id (env : Env) (s t : ℕ) (σ : Server) :
    ((postRecv env s σ).sessions t).id = (σ.sessions t).id := by
  rcases postRecv_cases env s σ with ⟨-, he⟩ | ⟨hc, he | he⟩ <;> rw [he]
  · rfl
  · rw [closeSession_id]
    rfl

theorem acceptCompletion_moves {fuel : ℕ} {op : AcceptOp} (hg : 0 < σ.sessionIdGen)
    (hC : ∀ s free, σ.free = s :: free → C σ s)
    (h : acceptCompletion env fuel op σ = some σ') : Moves env C σ σ' := by
  rcases acceptCompletion_cases h with ⟨-, acc, socks, rfl⟩ |
    ⟨s, free, acc, socks, acc', socks', hf, rfl⟩
  · exact .single (.side σ acc socks)
  · have hid := connect_id_ne hg s free op.acceptSock
    refine .head (.connect σ s free op.acceptSock hf (hC s free hf)) ?_
    refine (postRecv_moves hid).trans (.head (.side _ acc socks) (.tail ?_ (.side _ acc' socks')))
    exact Acts.moves (c := s) (onClientConnected_acts
      (by exact (postRecv_id env s s _).trans_ne hid) fun _ _ => rfl)

theorem acceptsFrom_of (h : ∀ s ∈ σ.free.head?, C σ s) {e : Event} : AcceptsFrom C σ e := by
  cases e with
  | accept i fuel => exact h
  | _ => trivial

theorem AcceptsFrom.all {e : Event} (h : AcceptsFrom C σ e)
    (hC : ∀ s accepts, C σ s → C { σ with accepts } s) :
    AcceptsFrom (fun σ s => ∀ accepts, C { σ with accepts } s) σ e := by
  cases e with
  | accept i fuel => exact fun s hs accepts => hC s accepts (h s hs)
  | _ => trivial

/-- Everything a step can do. -/
inductive Stepped (env : Env) (σ : Server) : Event → Server → Prop
  | accept {i fuel : ℕ} {op : AcceptOp} {σ' : Server} (hop : σ.accepts.inFlight[i]? = some op)
      (h : acceptCompletion env fuel op (σ.dequeueAccept i) = some σ') :
      Stepped env σ (.accept i fuel) σ'
  | fill {i : ℕ} {op : RecvOp} {data : List UInt8} (hop : σ.recvs[i]? = some op)
      (hd : op.data = none) (hlen : data.length ≤ bufferSize) :
      Stepped env σ (.fill i data) (σ.fill i op data)
  | recv {i : ℕ} {op : RecvOp} {data : List UInt8} {σ' : Server} (hop : σ.recvs[i]? = some op)
      (hd : op.data = some data)
      (h : recvCompletion env op.sess data.length (σ.dequeueRecv i) = some σ') :
      Stepped env σ (.recv i) σ'
  | send {i : ℕ} {op : SendOp} (hop : σ.sends[i]? = some op) :
      Stepped env σ (.send i) (sendCompletion env op.sess (σ.dequeueSend i))
  | enqueueSend {s : ℕ} {data : List UInt8} (hid : (σ.sessions s).id ≠ 0) :
      Stepped env σ (.enqueueSend s data) (enqueueSend env s data σ)
  | broadcast {data : List UInt8} {exclude : Option ℕ} :
      Stepped env σ (.broadcast data exclude) (broadcast env data exclude σ)
  | closeSession {s : ℕ} (hid : (σ.sessions s).id ≠ 0) :
      Stepped env σ (.closeSession s) (closeSession s σ)

/-- A receive without bytes closes its Session. -/
theorem recvCompletion_zero (env : Env) (s : ℕ) (σ : Server) :
    recvCompletion env s 0 σ = some (closeSession s σ) := if_pos rfl

/-- The completion of a receive goes to the Session it was posted for. -/
theorem step_recv {i : ℕ} {op : RecvOp} {data : List UInt8} (hop : σ.recvs[i]? = some op)
    (hd : op.data = some data) :
    step env σ (.recv i) = recvCompletion env op.sess data.length (σ.dequeueRecv i) := by
  obtain ⟨s, k, buf, d⟩ := op
  obtain rfl : d = some data := hd
  simp only [step, hop]

theorem step_cases {e : Event} (h : step env σ e = some σ') : Stepped env σ e σ' := by
  cases e with
  | accept i fuel =>
    simp only [step] at h
    split at h
    · contradiction
    · next hop => exact .accept hop h
  | fill i data =>
    simp only [step] at h
    split at h
    · contradiction
    · next op hop =>
      split_ifs at h with hdata
      obtain rfl := Option.some.inj h
      exact .fill hop (Option.isNone_iff_eq_none.mp hdata.1) hdata.2
  | recv i =>
    simp only [step] at h
    split at h
    · next hop => exact .recv hop rfl h
    · contradiction
  | send i =>
    simp only [step] at h
    split at h
    · contradiction
    · next op hop =>
      obtain rfl := Option.some.inj h
      exact .send hop
  | enqueueSend s data =>
    simp only [step] at h
    split_ifs at h with hid
    obtain rfl := Option.some.inj h
    exact .enqueueSend hid
  | broadcast data exclude =>
    obtain rfl := Option.some.inj h
    exact .broadcast
  | closeSession s =>
    simp only [step] at h
    split_ifs at h with hid
    obtain rfl := Option.some.inj h
    exact .closeSession hid

/-- Every step is a sequence of moves. -/
theorem step_moves {e : Event} (hg : Grounded σ)
    (hC : AcceptsFrom (fun σ s => ∀ accepts, C { σ with accepts } s) σ e)
    (h : step env σ e = some σ') : Moves env C σ σ' := by
  cases step_cases h with
  | @accept i fuel op _ hop haccept =>
    have hside : Move env C σ (σ.dequeueAccept i) := .side σ _ σ.closedSocks
    refine .head hside (acceptCompletion_moves hg.idGen (fun s free hf => ?_) haccept)
    exact hC s (by rw [show σ.free = s :: free from hf]; rfl) _
  | fill hop hd hlen => exact .single (.fill σ _ _ _ hop hd hlen)
  | @recv i op data _ hop hd hrecv =>
    have hid : ((σ.dequeueRecv i).sessions op.sess).id ≠ 0 :=
      hg.recvs op (List.mem_of_getElem? hop)
    have hk : (σ.dequeueRecv i).Known := hg.known
    exact .head (.dequeueRecv σ i) (recvCompletion_moves hid hk hrecv)
  | @send i op hop =>
    have hid : ((σ.dequeueSend i).sessions op.sess).id ≠ 0 :=
      hg.sends op (List.mem_of_getElem? hop)
    exact .head (.dequeueSend σ i) (postSend_acts hid : Handles env (some 0) _ _).moves
  | enqueueSend hid => exact (enqueueSend_acts hid _ : Handles env (some 0) _ _).moves
  | broadcast => exact (broadcast_acts hg.known _ _ : Handles env (some 0) _ _).moves
  | closeSession hid => exact Acts.moves (closeSession_acts hid)

/-- A run of a server that has started can be found by executing it. -/
theorem exists_run {ok : Server → Event → Prop} [∀ σ e, Decidable (ok σ e)] {P : Server → Prop}
    [DecidablePred P] {maxSessions n fuel : ℕ} {es : List Event}
    (h : ((start env maxSessions n fuel).bind fun σ₀ => Runs.runIf (step env) ok σ₀ es).any
      (fun σ => decide (P σ)) = true) :
    ∃ σ₀ σ, start env maxSessions n fuel = some σ₀ ∧ Runs.Exec (step env) ok σ₀ es σ ∧ P σ := by
  obtain ⟨σ, hσ, hP⟩ := (Option.any_eq_true ..).mp h
  obtain ⟨σ₀, hstart, hrun⟩ := Option.bind_eq_some_iff.mp hσ
  exact ⟨σ₀, σ, hstart, .of_runIf hrun, of_decide_eq_true hP⟩

end IocpChat
