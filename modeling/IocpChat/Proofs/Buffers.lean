import IocpChat.Proofs.Generations

/-! The buffer of a receive in flight belongs to the Session it was posted for, as
long as nothing closes a Session whose receive is in flight. -/

namespace IocpChat

open Runs (Exec)

variable {env : Env} {cur : Option ℕ} {s max : ℕ} {σ σ' : Server}

/-- Each receive in flight has its Session's buffer, with what the kernel stored there. -/
structure Owned (σ : Server) : Prop where
  held : ∀ op ∈ σ.recvs, σ.Open op.sess ∧ (σ.sessions op.sess).rxBuf = op.buf
  single : (σ.recvs.map RecvOp.sess).Nodup
  filled : ∀ op ∈ σ.recvs, ∀ data, op.data = some data → σ.readMem op.buf data.length = data

theorem Owned.congr (h : Owned σ) (hrecvs : σ'.recvs = σ.recvs) (hmem : σ'.mem = σ.mem)
    (hheld : ∀ op ∈ σ.recvs, σ'.Open op.sess ∧
      (σ'.sessions op.sess).rxBuf = (σ.sessions op.sess).rxBuf) : Owned σ' where
  held op hop := by
    rw [hrecvs] at hop
    obtain ⟨ho, hbuf⟩ := hheld op hop
    exact ⟨ho, hbuf.trans (h.held op hop).2⟩
  single := hrecvs ▸ h.single
  filled op hop data hd := by
    rw [hrecvs] at hop
    rw [Server.readMem_congr hmem]
    exact h.filled op hop data hd

theorem Owned.set (h : Owned σ) {x : Session} (hid : x.id = (σ.sessions s).id)
    (hc : x.closing = (σ.sessions s).closing) (hb : x.rxBuf = (σ.sessions s).rxBuf) :
    Owned (σ.set s x) := by
  refine h.congr rfl rfl fun op hop => ?_
  have ho := (h.held op hop).1
  rw [σ.open_set, σ.sessions_set]
  split_ifs with hs
  · rw [hc, hid, hb, ← hs]
    exact ⟨ho, rfl⟩
  · exact ⟨ho, rfl⟩

theorem Owned.emit (h : Owned σ) (e : Effect) : Owned (σ.emit e) := ⟨h.held, h.single, h.filled⟩

theorem Owned.close (h : Owned σ) (hno : NoRecv σ s) : Owned (closeSession s σ) := by
  cases hc : (σ.sessions s).closing with
  | true =>
    rw [closeSession_of_closing hc]
    exact h
  | false =>
    refine h.congr (closeSession_recvs s σ) (closeSession_mem s σ) fun op hop => ?_
    rw [open_closeSession hc, sessions_closeSession hc, if_neg (hno op hop)]
    exact ⟨⟨hno op hop, (h.held op hop).1⟩, rfl⟩

theorem Owned.handed (h : Owned σ) (t : ℕ) (ok : Bool) : Owned (σ.handed t ok) := by
  have hpop : Owned (σ.popSend t) := h.set rfl rfl rfl
  exact hpop.emit _

theorem Owned.act {N : Effect → Prop} (h : Owned σ) (henv : FailsIdle env)
    (hcur : ∀ s, cur = some s → NoRecv σ s) (hact : Act env cur N σ σ') : Owned σ' := by
  cases hact with
  | note e he => exact h.emit e
  | push t data ho => exact h.set rfl rfl rfl
  | claim t ho => exact h.set rfl rfl rfl
  | idle t ho hq => exact h.set rfl rfl rfl
  | hand t ho => exact ⟨(h.handed t true).held, h.single, (h.handed t true).filled⟩
  | fail t ho hf =>
    have hno : NoRecv (σ.popSend t) t := henv _ t hf
    exact (h.handed t false).close hno
  | close s hs ho => exact h.close (hcur s hs)

theorem Owned.acts {N : Effect → Prop} (h : Owned σ) (henv : FailsIdle env)
    (hcur : ∀ s, cur = some s → NoRecv σ s) (hacts : Acts env cur N σ σ') : Owned σ' := by
  induction hacts with
  | refl => exact h
  | tail hpre hact ih =>
    refine ih.act henv (fun s hs op hop => ?_) hact
    rw [Acts.kept hpre |>.recvs] at hop
    exact hcur s hs op hop

theorem Owned.works (h : Owned σ) (henv : FailsIdle env) (hno : NoRecv σ s)
    (hworks : Works env s σ σ') : Owned σ' := by
  induction hworks with
  | refl => exact h
  | tail hpre hw ih =>
    have hno' : NoRecv _ s := fun op hop => hno op (by rwa [← Works.recvs hpre])
    cases hw with
    | act hact => exact ih.act henv (fun t ht => Option.some.inj ht ▸ hno') hact
    | ring r => exact ih.set rfl rfl rfl
    | mark e he => exact ih.emit e

/-! ### Operations that come and go -/

theorem Owned.postsRecv (h : Owned σ) (hid : (σ.sessions s).id ≠ 0) (hno : NoRecv σ s) :
    Owned (postRecv env s σ) := by
  rcases postRecv_cases env s σ with ⟨-, he⟩ | ⟨hc, he | he⟩
  · rw [he]
    exact h
  · rw [he]
    refine ⟨fun op hop => ?_, ?_, fun op hop data hd => ?_⟩
    · rcases List.mem_append.mp hop with hop | hop
      · exact h.held op hop
      · rw [List.mem_singleton.mp hop]
        exact ⟨⟨hc, hid⟩, rfl⟩
    · have hnew : s ∉ σ.recvs.map RecvOp.sess := by
        intro hmem
        obtain ⟨op, hop, hs⟩ := List.mem_map.mp hmem
        exact hno op hop hs
      simp only [Server.recvPosted, List.map_append, List.map_singleton]
      exact List.nodup_append.mpr ⟨h.single, List.nodup_singleton s, fun t ht u hu htu => by
        rw [List.mem_singleton.mp hu] at htu
        exact hnew (htu ▸ ht)⟩
    · rcases List.mem_append.mp hop with hop | hop
      · exact h.filled op hop data hd
      · rw [List.mem_singleton.mp hop] at hd
        simp at hd
  · rw [he]
    exact (h.emit _).close hno

/-- Taking a Session from the pool is taking one without a receive in flight. -/
theorem Owned.noRecv_of_free (h : Owned σ) (hb : Books max σ) {free : List ℕ}
    (hf : σ.free = s :: free) : NoRecv σ s := by
  intro op hop hs
  have hnot := ((hb.free s).mp (by rw [hf]; simp)).2
  rw [← hs] at hnot
  exact hnot (h.held op hop).1

theorem Owned.connects (h : Owned σ) (hno : NoRecv σ s) (free : List ℕ) (sock : Option ℕ) :
    Owned (connect s free sock σ) := by
  refine h.congr (by rw [connect_eq]; rfl) (by rw [connect_eq]; rfl) fun op hop => ?_
  have hses := sessions_connect s op.sess free sock σ
  rw [if_neg (hno op hop)] at hses
  rw [Server.Open, hses]
  exact ⟨(h.held op hop).1, rfl⟩

theorem Owned.side (h : Owned σ) (acc : AcceptSide) (socks : List ℕ) : Owned (σ.side acc socks) :=
  ⟨h.held, h.single, h.filled⟩

theorem Owned.dequeueRecv (h : Owned σ) (i : ℕ) : Owned (σ.dequeueRecv i) where
  held op hop := h.held op (List.mem_of_mem_eraseIdx hop)
  single := ((List.eraseIdx_sublist σ.recvs i).map RecvOp.sess).nodup h.single
  filled op hop := h.filled op (List.mem_of_mem_eraseIdx hop)

/-- Receives of one Session are one receive. -/
theorem Owned.index_eq (h : Owned σ) {i j : ℕ} {op op' : RecvOp} (hi : σ.recvs[i]? = some op)
    (hj : σ.recvs[j]? = some op') (hs : op.sess = op'.sess) : i = j := by
  have hlt : i < (σ.recvs.map RecvOp.sess).length := by
    rw [List.length_map]
    exact (List.getElem?_eq_some_iff.mp hi).1
  apply (List.getElem?_inj hlt h.single).mp
  rw [List.getElem?_map, List.getElem?_map, hi, hj, Option.map_some, Option.map_some, hs]

/-- With the completion, the only receive of its Session is gone. -/
theorem Owned.noRecv_dequeue (h : Owned σ) {i : ℕ} {op : RecvOp} (hop : σ.recvs[i]? = some op) :
    NoRecv (σ.dequeueRecv i) op.sess := by
  intro op' hop' hs
  obtain ⟨j, hne, hj⟩ := List.mem_eraseIdx_iff_getElem?.mp hop'
  exact hne (h.index_eq hj hop hs)

theorem map_sess_set {ops : List RecvOp} {i : ℕ} {op : RecvOp} {data : List UInt8}
    (hop : ops[i]? = some op) :
    (ops.set i { op with data := some data }).map RecvOp.sess = ops.map RecvOp.sess := by
  obtain ⟨hlt, hget⟩ := List.getElem?_eq_some_iff.mp hop
  have hlt' : i < (ops.map RecvOp.sess).length := by rwa [List.length_map]
  have hsess : (ops.map RecvOp.sess)[i] = op.sess := by rw [List.getElem_map, hget]
  rw [List.map_set, ← hsess, List.set_getElem_self]

/-- The kernel stores into the buffer of one receive only. -/
theorem Owned.fill (h : Owned σ) (hb : Books max σ) {i : ℕ} {op : RecvOp} {data : List UInt8}
    (hop : σ.recvs[i]? = some op) : Owned (σ.fill i op data) := by
  have hmem := List.mem_of_getElem? hop
  have hlt := (List.getElem?_eq_some_iff.mp hop).1
  obtain ⟨ho, hbuf⟩ := h.held op hmem
  obtain ⟨b, hsb⟩ := Option.ne_none_iff_exists'.mp (hb.open_buf op.sess ho)
  have hopb : op.buf = some b := by rw [← hbuf, hsb]
  refine ⟨fun op' hop' => ?_, (map_sess_set hop).symm ▸ h.single, fun op' hop' data' hd => ?_⟩
  · rcases List.mem_or_eq_of_mem_set hop' with hop' | rfl
    · exact h.held op' hop'
    · exact h.held op hmem
  · obtain ⟨j, hj⟩ := List.mem_iff_getElem?.mp hop'
    simp only [Server.fill] at hj
    by_cases hij : i = j
    · subst hij
      rw [List.getElem?_set_self hlt, Option.some.injEq] at hj
      subst hj
      obtain rfl : data = data' := Option.some.inj hd
      rw [hopb]
      exact Server.readMem_fill hopb data
    · rw [List.getElem?_set_ne hij] at hj
      have hmem' := List.mem_of_getElem? hj
      -- another receive is of another Session, so its buffer is another one
      have hne : op'.buf ≠ some b := by
        intro hb'
        have hs := hb.buf_inj op.sess op'.sess b hsb ((h.held op' hmem').2.trans hb')
        exact hij (h.index_eq hop hj hs)
      rw [Server.readMem_fill_of_ne hopb hne]
      exact h.filled op' hmem' data' hd

/-- Handlers that close nothing themselves. -/
theorem Owned.sendActs (h : Owned σ) (henv : FailsIdle env) (hacts : Handles env none σ σ') :
    Owned σ' :=
  h.acts henv (fun s hs => by simp at hs) hacts

theorem Owned.accept (h : Owned σ) (hb : Books max σ) (henv : FailsIdle env) {fuel : ℕ}
    {op : AcceptOp} (haccept : acceptCompletion env fuel op σ = some σ') : Owned σ' := by
  rcases acceptCompletion_cases haccept with ⟨-, acc, socks, rfl⟩ |
    ⟨s, free, acc, socks, acc', socks', hf, rfl⟩
  · exact h.side acc socks
  · have hno := h.noRecv_of_free hb hf
    have hid := connect_id_ne hb.grounded.idGen s free op.acceptSock
    have hno' : NoRecv (connect s free op.acceptSock σ) s := by
      rw [connect_eq]
      exact hno
    have hpost : Owned (postRecv env s (connect s free op.acceptSock σ)) :=
      (h.connects hno free op.acceptSock).postsRecv hid hno'
    refine Owned.side ((hpost.side acc socks).sendActs henv (onClientConnected_acts ?_ fun _ _ => rfl)) acc' socks'
    exact (postRecv_id env s s _).trans_ne hid

theorem Owned.recv (h : Owned σ) (hb : Books max σ) (henv : FailsIdle env) {i n : ℕ}
    {op : RecvOp} (hop : σ.recvs[i]? = some op)
    (hrecv : recvCompletion env op.sess n (σ.dequeueRecv i) = some σ') : Owned σ' := by
  have hid : ((σ.dequeueRecv i).sessions op.sess).id ≠ 0 := hb.recvs op (List.mem_of_getElem? hop)
  have hk : (σ.dequeueRecv i).Known := hb.grounded.known
  have hno := h.noRecv_dequeue hop
  obtain ⟨τ, hτ, hend⟩ := recvCompletion_works hid hk hrecv
  have hworks := (h.dequeueRecv i).works henv hno hτ
  rcases hend with rfl | rfl
  · exact hworks
  · refine hworks.postsRecv (by rwa [hτ.id]) fun op' hop' => hno op' ?_
    rwa [← hτ.recvs]

theorem Owned.step {e : Event} (h : Owned σ) (hb : Books max σ) (henv : FailsIdle env)
    (hok : ClosesIdle σ e) (hstep : step env σ e = some σ') : Owned σ' := by
  cases step_cases hstep with
  | @accept i fuel op _ hop haccept =>
    have hside : Owned (σ.dequeueAccept i) := h.side _ _
    exact hside.accept (hb.side _ _) henv haccept
  | fill hop hd hlen => exact h.fill hb hop
  | recv hop hd hrecv => exact h.recv hb henv hop hrecv
  | @send i op hop =>
    have hid := hb.sends op (List.mem_of_getElem? hop)
    have hdeq : Owned (σ.dequeueSend i) := ⟨h.held, h.single, h.filled⟩
    exact hdeq.sendActs henv (postSend_acts hid)
  | enqueueSend hid => exact h.sendActs henv (enqueueSend_acts hid _)
  | broadcast => exact h.sendActs henv (broadcast_acts hb.grounded.known _ _)
  | closeSession hid => exact h.close hok

theorem owned_run {maxSessions n fuel : ℕ} {σ₀ : Server} {es : List Event}
    (hstart : start env maxSessions n fuel = some σ₀) (henv : FailsIdle env)
    (h : Exec (step env) ClosesIdle σ₀ es σ) : Owned σ := by
  refine invariant_run (P := Owned) hstart (fun acc socks => ?_) ?_ h
  · exact ⟨fun op hop => by simp [Server.side, Server.new] at hop, by simp [Server.side, Server.new],
      fun op hop => by simp [Server.side, Server.new] at hop⟩
  · exact fun σ e σ' hb ho hok hstep => ho.step hb henv hok hstep

/-- A receive in flight has the buffer it was posted with to itself, and once it has
completed its handler reads what the kernel stored, never through null. -/
theorem recv_buffer_owned {maxSessions n fuel : ℕ} {σ₀ σ : Server} {es : List Event}
    (hstart : start env maxSessions n fuel = some σ₀) (henv : FailsIdle env)
    (h : Exec (step env) ClosesIdle σ₀ es σ) {i : ℕ} {op : RecvOp}
    (hop : σ.recvs[i]? = some op) :
    ∃ b, op.buf = some b ∧ (σ.sessions op.sess).rxBuf = some b ∧ b ∉ σ.bufferPool.pool ∧
      (∀ t, t ≠ op.sess → (σ.sessions t).rxBuf ≠ some b) ∧
      ∀ data, op.data = some data →
        σ.readMem (σ.sessions op.sess).rxBuf data.length = data ∧
          ∃ σ', step env σ (.recv i) = some σ' := by
  have hb := books_run hstart h
  have howned := owned_run hstart henv h
  have hmem := List.mem_of_getElem? hop
  obtain ⟨ho, hbuf⟩ := howned.held op hmem
  obtain ⟨b, hsb⟩ := Option.ne_none_iff_exists'.mp (hb.open_buf op.sess ho)
  refine ⟨b, by rw [← hbuf, hsb], hsb, (hb.buf_fresh _ b hsb).2, ?_, ?_⟩
  · intro t ht htb
    exact ht (hb.buf_inj t op.sess b htb hsb)
  · intro data hd
    refine ⟨by rw [hbuf]; exact howned.filled op hmem data hd, ?_⟩
    obtain ⟨σ', hσ'⟩ : ∃ σ', recvCompletion env op.sess data.length (σ.dequeueRecv i) = some σ' :=
      recvCompletion_isSome (hb.open_buf op.sess ho)
    exact ⟨σ', (step_recv hop hd).trans hσ'⟩

/-- Every `WSASend` fails. -/
def refuseAll : Env := { Env.calm with wsaSendFails := fun _ _ => true }

/-- The greeting fails behind the receive that was just posted. -/
theorem recv_buffer_lost :
    ∃ (env : Env) (maxSessions n fuel : ℕ) (σ₀ σ : Server) (es : List Event),
      start env maxSessions n fuel = some σ₀ ∧ Exec (step env) (fun _ _ => True) σ₀ es σ ∧
        ∃ op ∈ σ.recvs, (σ.sessions op.sess).rxBuf = none ∧
          ∃ b ∈ op.buf, b ∈ σ.bufferPool.pool := by
  obtain ⟨σ₀, σ, hstart, hrun, hlost⟩ :
      ∃ σ₀ σ, start refuseAll 1 1 1 = some σ₀ ∧
        Exec (step refuseAll) (fun _ _ => True) σ₀ [.accept 0 1] σ ∧
        ∃ op ∈ σ.recvs, (σ.sessions op.sess).rxBuf = none ∧
          ∃ b ∈ op.buf, b ∈ σ.bufferPool.pool := exists_run (by decide +kernel)
  exact ⟨refuseAll, 1, 1, 1, σ₀, σ, [.accept 0 1], hstart, hrun, hlost⟩

/-- Every `WSASend` that may fail does. -/
def refuseIdle : Env := { Env.calm with wsaSendFails := fun σ s => decide (NoRecv σ s) }

/-- The reply to client 1 fails; a byte of client 2 has arrived. -/
def refusedReply : List Event :=
  [.accept 0 1, .accept 0 1, .send 0, .fill 0 [4, 0, 13, 0], .recv 0, .fill 0 [9]]

theorem recv_buffer_owned_refused :
    ∃ σ : Server, σ.tabled = [0] ∧ σ.readMem (σ.sessions 0).rxBuf 1 = [9] := by
  obtain ⟨σ₀, σ, hstart, hrun, htabled, hop⟩ :
      ∃ σ₀ σ, start refuseIdle 2 1 1 = some σ₀ ∧
        Exec (step refuseIdle) ClosesIdle σ₀ refusedReply σ ∧ σ.tabled = [0] ∧
        σ.recvs[0]? = some ⟨0, 2, some 126, some [9]⟩ := exists_run (by decide +kernel)
  obtain ⟨b, -, -, -, -, hread⟩ :=
    recv_buffer_owned hstart (fun σ s hf => of_decide_eq_true hf) hrun hop
  exact ⟨σ, htabled, (hread [9] rfl).1⟩

end IocpChat
