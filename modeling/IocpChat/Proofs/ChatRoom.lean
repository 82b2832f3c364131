import IocpChat.Proofs.Mail

/-! The server refines the chat room: whatever a connection was told in the room was handed to
`WSASend` for it, in this order, or waits in the queue of its Session. While a packet is handled
the room is ahead of the server, by what the handler is about to push. -/

namespace IocpChat

open ChatRoom (follow)
open Runs (Exec)

variable {env : Env} {max s k : ℕ} {due due' add : ℕ → List (List UInt8)} {σ σ' : Server}

/-- The room that has followed the server up to here. -/
abbrev Server.room (σ : Server) : ChatRoom := .of σ.trace

/-- The room is ahead of the server by the texts `due t` for each Session `t`. -/
structure Owes (due : ℕ → List (List UInt8)) (σ : Server) : Prop where
  member : ∀ t j, (t, j) ∈ σ.room.members ↔ σ.Open t ∧ (σ.sessions t).id = j
  queued : ∀ t, ∀ m ∈ (σ.sessions t).sendQueue, m.conn ≤ (σ.sessions t).id
  mail : ∀ t j, ∃ stale : List Msg, (∀ m ∈ stale, m.conn < j) ∧
    σ.handedTo t j <+: stale ++ σ.room.mail (t, j) ∧
    (σ.Open t → (σ.sessions t).id = j →
      σ.mail t ++ addressed j (due t) = stale ++ σ.room.mail (t, j))
  fresh : ∀ t j, σ.sessionIdGen ≤ j → σ.handedTo t j = [] ∧ σ.room.told (t, j) = []
  authors : ∀ m ∈ σ.room.log, m.1.2 < σ.sessionIdGen
  attends : ∀ c, ∃ before, σ.room.Attends c before ∧ ∀ m ∈ before, m.1.2 < c.2

theorem owes_new (maxSessions : ℕ) : Owes nothing (.new maxSessions) where
  member t j := iff_of_false (Finset.notMem_empty _) fun h => h.1.2 rfl
  queued _ _ hm := absurd hm List.not_mem_nil
  mail _ _ := ⟨[], fun _ hm => absurd hm List.not_mem_nil, List.prefix_refl _, fun _ _ => rfl⟩
  fresh _ _ _ := ⟨rfl, rfl⟩
  authors _ hm := absurd hm List.not_mem_nil
  attends c := by
    refine ⟨[], ⟨[], [], rfl, rfl, fun _ => rfl⟩, ?_⟩
    exact fun _ hm => absurd hm List.not_mem_nil

/-! ### Pushing what is due -/

/-- Of what the server does itself, the room follows only the closes. -/
theorem foldl_follow_inner (r : ChatRoom) {es : List Effect} (h : ∀ e ∈ es, e.isInner = true) :
    (es.foldl follow r).told = r.told ∧ (es.foldl follow r).log = r.log ∧
      ∀ c, c ∈ (es.foldl follow r).members ↔ c ∈ r.members ∧ Effect.closed c.1 c.2 ∉ es := by
  induction es generalizing r with
  | nil => exact ⟨rfl, rfl, fun c => by simp⟩
  | cons e es ih =>
    obtain ⟨he, hes⟩ := List.forall_mem_cons.mp h
    obtain ⟨htold, hlog, hmembers⟩ := ih (follow r e) hes
    rw [List.foldl_cons]
    cases e with
    | accepted t j => contradiction
    | packet t j bytes => contradiction
    | closed t j =>
      refine ⟨htold, hlog, ?_⟩
      intro c
      have hc : Effect.closed c.1 c.2 = .closed t j ↔ c = (t, j) := by
        rw [Effect.closed.injEq, Prod.ext_iff]
      rw [hmembers, List.mem_cons, hc, not_or, ← and_assoc]
      simp only [follow, Room.leave, Finset.mem_erase]
      rw [and_comm (a := c ≠ (t, j))]
    | _ =>
      refine ⟨htold, hlog, ?_⟩
      intro c
      rw [hmembers, List.mem_cons]
      simp [follow]

theorem Server.room_append {es : List Effect} (h : σ'.trace = σ.trace ++ es) :
    σ'.room = es.foldl follow σ.room := by
  rw [Server.room, h, ChatRoom.of, List.foldl_append]
  rfl

/-- What is pushed is no longer due. -/
theorem Owes.mailed (h : Owes due σ) (hb : Books max σ) (hm : Mailed add σ σ')
    (hdue : ∀ t, σ.Open t → due t = add t ++ due' t) : Owes due' σ' := by
  obtain ⟨es, htrace, hinner, hclosed⟩ := hm.trace
  have hroom := Server.room_append htrace
  obtain ⟨htold, hlog, hmembers⟩ := foldl_follow_inner σ.room hinner
  rw [← hroom] at htold hlog hmembers
  have hmail (c : Conn) : σ'.room.mail c = σ.room.mail c := by
    rw [ChatRoom.mail, htold]
    rfl
  refine ⟨?_, ?_, ?_, ?_, ?_, ?_⟩
  · intro t j
    have hback := hm.opens t
    rw [hmembers, h.member, hclosed, hm.id]
    tauto
  · intro t m hmem
    rw [hm.id]
    rcases hm.queued t m hmem with hmem | hconn
    · exact h.queued t m hmem
    · exact hconn.le
  · intro t j
    obtain ⟨stale, hstale, hpre, heq⟩ := h.mail t j
    refine ⟨stale, hstale, ?_, ?_⟩
    · rw [hmail]
      by_cases hopen : σ.Open t ∧ (σ.sessions t).id = j
      · obtain ⟨ho, rfl⟩ := hopen
        have hwhole := heq ho rfl
        rw [hdue t ho, addressed_append, ← List.append_assoc] at hwhole
        rw [← hwhole]
        exact (hm.cut t ho).trans (List.prefix_append _ _)
      · rw [hm.others t j hopen]
        exact hpre
    · intro ho hj
      have ho' := hm.opens t ho
      rw [hm.id] at hj
      rw [hmail, ← heq ho' hj, hm.kept t ho, hdue t ho', addressed_append, hj, List.append_assoc]
  · intro t j hj
    rw [hm.idGen] at hj
    obtain ⟨hhanded, hnone⟩ := h.fresh t j hj
    rw [htold]
    refine ⟨?_, hnone⟩
    by_cases hopen : σ.Open t ∧ (σ.sessions t).id = j
    · exact absurd (hopen.2 ▸ hb.id_lt t) (Nat.not_lt.mpr hj)
    · rw [hm.others t j hopen]
      exact hhanded
  · rw [hlog, hm.idGen]
    exact h.authors
  · intro c
    obtain ⟨before, hbefore, hfirst⟩ := h.attends c
    exact ⟨before, hbefore.same hlog htold fun hc => ((hmembers c).mp hc).1, hfirst⟩

/-! ### The room goes ahead -/

/-- The room serves a packet, and the server is about to. -/
theorem Owes.ahead (h : Owes nothing σ) (hb : Books max σ) {e : Effect} (hsend : e.isSend = false)
    (hmembers : (follow σ.room e).members = σ.room.members)
    (hmail : ∀ t, σ.Open t → (follow σ.room e).mail (t, (σ.sessions t).id) =
      σ.room.mail (t, (σ.sessions t).id) ++ addressed (σ.sessions t).id (due t))
    (hgone : ∀ c, c ∉ σ.room.members → (follow σ.room e).told c = σ.room.told c)
    (hauthors : ∀ m ∈ (follow σ.room e).log, m.1.2 < σ.sessionIdGen)
    (hattends : ∀ c before, σ.room.Attends c before → (follow σ.room e).Attends c before) :
    Owes due (σ.emit e) := by
  have htrace : (σ.emit e).trace = σ.trace ++ [e] := rfl
  have hroom : (σ.emit e).room = follow σ.room e := Server.room_append htrace
  have hhanded (t j : ℕ) : (σ.emit e).handedTo t j = σ.handedTo t j := by
    rw [Server.handedTo_emit, Effect.handedTo_of_not_isSend hsend, List.append_nil]
  refine ⟨?_, h.queued, ?_, ?_, ?_, ?_⟩
  · intro t j
    rw [hroom, hmembers]
    exact h.member t j
  · intro t j
    obtain ⟨stale, hstale, hpre, heq⟩ := h.mail t j
    refine ⟨stale, hstale, ?_, ?_⟩
    · rw [hhanded, hroom]
      by_cases hmem : (t, j) ∈ σ.room.members
      · obtain ⟨ho, rfl⟩ := (h.member t j).mp hmem
        rw [hmail t ho, ← List.append_assoc]
        exact hpre.trans (List.prefix_append _ _)
      · rw [ChatRoom.mail, hgone _ hmem]
        exact hpre
    · intro ho hj
      obtain rfl : (σ.sessions t).id = j := hj
      have hwhole := heq ho rfl
      rw [addressed, List.map_nil, List.append_nil] at hwhole
      rw [hroom, hmail t ho, ← List.append_assoc, ← hwhole, Server.mail, hhanded]
      rfl
  · intro t j hj
    obtain ⟨hnone, htold⟩ := h.fresh t j hj
    refine ⟨(hhanded t j).trans hnone, ?_⟩
    rw [hroom, hgone, htold]
    intro hmem
    obtain ⟨ho, rfl⟩ := (h.member t j).mp hmem
    exact Nat.not_le.mpr (hb.id_lt t) hj
  · rw [hroom]
    exact hauthors
  · intro c
    obtain ⟨before, hbefore, hfirst⟩ := h.attends c
    rw [hroom]
    exact ⟨before, hattends c before hbefore, hfirst⟩

theorem Owes.tells (h : Owes nothing σ) (hb : Books max σ) {e : Effect} (hsend : e.isSend = false)
    {a : List UInt8} (hfollow : follow σ.room e = σ.room.tell (s, (σ.sessions s).id) a) :
    Owes (only s a) (σ.emit e) := by
  refine h.ahead hb hsend ?_ ?_ ?_ ?_ ?_ <;> rw [hfollow]
  · rfl
  · intro t ho
    have hmem := (h.member t _).mpr ⟨ho, rfl⟩
    by_cases hts : t = s
    · subst hts
      simp [ChatRoom.mail, Room.tell, hmem, only, addressed]
    · simp [ChatRoom.mail, Room.tell, hts, only, addressed]
  · intro c hc
    exact if_neg fun hmem => hc hmem.1
  · exact h.authors
  · intro c before hbefore
    exact hbefore.tell _ a

theorem Owes.publishes (h : Owes nothing σ) (hb : Books max σ) {e : Effect}
    (hsend : e.isSend = false) {a : List UInt8}
    (hfollow : follow σ.room e = σ.room.publish (s, (σ.sessions s).id) a) :
    Owes (others (some s) a) (σ.emit e) := by
  refine h.ahead hb hsend ?_ ?_ ?_ ?_ ?_ <;> rw [hfollow]
  · rfl
  · intro t ho
    have hmem := (h.member t _).mpr ⟨ho, rfl⟩
    by_cases hts : t = s
    · subst hts
      simp [ChatRoom.mail, Room.publish, others, addressed]
    · simp [ChatRoom.mail, Room.publish, hmem, hts, others, addressed]
  · intro c hc
    exact if_neg fun hmem => hc hmem.1
  · intro m hm
    rcases List.mem_append.mp hm with hm | hm
    · exact h.authors m hm
    · rw [List.mem_singleton.mp hm]
      exact hb.id_lt s
  · intro c before hbefore
    exact hbefore.publish _ a

theorem Owes.card (h : Owes due σ) (hb : Books max σ) :
    (σ.room.members.card : ℤ) = σ.statCurConn := by
  have hmembers : σ.room.members = σ.tabled.toFinset.image fun t => (t, (σ.sessions t).id) := by
    ext ⟨t, j⟩
    rw [h.member, Finset.mem_image]
    simp only [List.mem_toFinset, hb.mem_tabled, Prod.mk.injEq]
    constructor
    · rintro ⟨ho, hj⟩
      exact ⟨t, ho, rfl, hj⟩
    · rintro ⟨u, ho, rfl, hj⟩
      exact ⟨ho, hj⟩
  have hinj : Function.Injective fun t => (t, (σ.sessions t).id) :=
    fun t u htu => (Prod.mk.inj htu).1
  rw [hmembers, Finset.card_image_of_injective _ hinj, List.toFinset_card_of_nodup hb.tabled_nodup,
    hb.count, Server.tabled, AList.keys, List.keys, List.length_map, List.length_map]

/-- What the handler of a packet is about to push. -/
def Server.promised (σ : Server) (s : ℕ) (packet : List UInt8) : ℕ → List (List UInt8) :=
  (dispatch packet).elim nothing (Handler.pushes σ s packet)

theorem Owes.packet (h : Owes nothing σ) (hb : Books max σ) (s : ℕ) (packet : List UInt8) :
    Owes (σ.promised s packet) (σ.emit (.packet s (σ.sessions s).id packet)) := by
  have hcount : Int32.ofInt σ.room.members.card = getCurrentConnectionCount σ :=
    congrArg Int32.ofInt (h.card hb)
  unfold Server.promised
  cases hd : dispatch packet with
  | none =>
    have hfollow : follow σ.room (.packet s (σ.sessions s).id packet) = σ.room := by
      rw [follow, hd]
      rfl
    refine h.ahead hb rfl ?_ ?_ ?_ ?_ ?_ <;> rw [hfollow]
    · exact fun t _ => (List.append_nil _).symm
    · exact fun _ _ => rfl
    · exact h.authors
    · exact fun _ _ hbefore => hbefore
  | some handler =>
    have hfollow : follow σ.room (.packet s (σ.sessions s).id packet) =
        σ.room.serve (s, (σ.sessions s).id) packet handler := by
      rw [follow, hd]
      rfl
    cases handler with
    | login =>
      refine h.tells hb rfl (hfollow.trans ?_)
      rw [ChatRoom.serve, hcount]
    | chatMessage => exact h.publishes hb rfl hfollow
    | exit => exact h.publishes hb rfl hfollow
    | userCount =>
      refine h.tells hb rfl (hfollow.trans ?_)
      rw [ChatRoom.serve, hcount]

/-- A new connection is in the room and is about to be greeted; what it finds in the queue
was pushed for earlier connections. -/
theorem Owes.connect (h : Owes nothing σ) (hb : Books max σ) {free : List ℕ} {sock : Option ℕ}
    (hf : σ.free = s :: free) : Owes (only s kAskId) (connect s free sock σ) := by
  have hclosed : ¬σ.Open s := ((hb.free s).mp (by rw [hf]; exact List.mem_cons_self ..)).2
  have hses (t : ℕ) := sessions_connect s t free sock σ
  have hopen (t : ℕ) : (IocpChat.connect s free sock σ).Open t ↔ t = s ∨ σ.Open t :=
    open_connect hb.grounded.idGen t
  have hgen : (IocpChat.connect s free sock σ).sessionIdGen = σ.sessionIdGen + 1 := by
    rw [connect_eq]
  have htrace : (IocpChat.connect s free sock σ).trace =
      σ.trace ++ [.accepted s σ.sessionIdGen] := by rw [connect_eq]
  have hroom : (IocpChat.connect s free sock σ).room =
      (σ.room.join (s, σ.sessionIdGen)).tell (s, σ.sessionIdGen) kAskId := Server.room_append htrace
  have hhanded (t j : ℕ) : (IocpChat.connect s free sock σ).handedTo t j = σ.handedTo t j := by
    rw [Server.handedTo, htrace, List.flatMap_append]
    exact List.append_nil _
  have hnew : (s, σ.sessionIdGen) ∈ (σ.room.join (s, σ.sessionIdGen)).members :=
    Finset.mem_insert_self _ _
  have htold (c : Conn) (hc : c ≠ (s, σ.sessionIdGen)) :
      (IocpChat.connect s free sock σ).room.told c = σ.room.told c := by
    rw [hroom]
    exact if_neg fun hmem => hc hmem.2
  have hself : (IocpChat.connect s free sock σ).room.mail (s, σ.sessionIdGen) =
      addressed σ.sessionIdGen [kAskId] := by
    have hnone := (h.fresh s σ.sessionIdGen le_rfl).2
    rw [hroom]
    simp [ChatRoom.mail, Room.tell, Room.join, hnone, addressed]
  refine ⟨?_, ?_, ?_, ?_, ?_, ?_⟩
  · intro t j
    have hmem : (t, j) ∈ (IocpChat.connect s free sock σ).room.members ↔
        (t = s ∧ j = σ.sessionIdGen) ∨ (t, j) ∈ σ.room.members := by
      rw [hroom]
      simp [Room.tell, Room.join]
    rw [hmem, h.member, hopen, hses]
    by_cases hts : t = s
    · subst hts
      simp [hclosed, Server.connected, eq_comm]
    · simp [hts]
  · intro t m hm
    rw [hses] at hm ⊢
    split_ifs at hm ⊢ with hts
    · exact ((h.queued s m hm).trans_lt (hb.id_lt s)).le
    · exact h.queued t m hm
  · intro t j
    by_cases hc : (t, j) = (s, σ.sessionIdGen)
    · obtain ⟨rfl, rfl⟩ := Prod.mk.inj hc
      refine ⟨(σ.sessions t).sendQueue, ?_, ?_, ?_⟩
      · intro m hm
        exact (h.queued t m hm).trans_lt (hb.id_lt t)
      · rw [hhanded, (h.fresh t _ le_rfl).1]
        exact List.nil_prefix
      · intro _ _
        rw [hself, Server.mail, hses, if_pos rfl, hhanded]
        simp [Server.connected, (h.fresh t σ.sessionIdGen le_rfl).1, only]
    · obtain ⟨stale, hstale, hpre, heq⟩ := h.mail t j
      have hmail : (IocpChat.connect s free sock σ).room.mail (t, j) = σ.room.mail (t, j) := by
        rw [ChatRoom.mail, htold _ hc]
        rfl
      refine ⟨stale, hstale, ?_, ?_⟩
      · rwa [hhanded, hmail]
      · intro ho hj
        have hts : t ≠ s := by
          rintro rfl
          rw [hses, if_pos rfl] at hj
          exact hc (Prod.ext rfl hj.symm)
        have hold := heq (((hopen t).mp ho).resolve_left hts)
        rw [hses, if_neg hts] at hj
        rw [hmail, ← hold hj, Server.mail, Server.mail, hses, if_neg hts, hhanded, only, if_neg hts]
  · intro t j hj
    rw [hgen] at hj
    obtain ⟨hnone, hsilent⟩ := h.fresh t j (Nat.le_of_succ_le hj)
    refine ⟨(hhanded t j).trans hnone, ?_⟩
    rw [htold, hsilent]
    intro hc
    rw [(Prod.mk.inj hc).2] at hj
    exact absurd hj (Nat.not_succ_le_self _)
  · intro m hm
    rw [hroom] at hm
    rw [hgen]
    exact Nat.lt_succ_of_lt (h.authors m hm)
  · intro c
    rw [hroom]
    by_cases hc : c = (s, σ.sessionIdGen)
    · subst hc
      have hnone : σ.room.heard (s, σ.sessionIdGen) = [] := by
        rw [Room.heard, (h.fresh s _ le_rfl).2]
        rfl
      exact ⟨σ.room.log, (Room.attends_join hnone).tell _ kAskId, h.authors⟩
    · obtain ⟨before, hbefore, hfirst⟩ := h.attends c
      have hjoin : (σ.room.join (s, σ.sessionIdGen)).Attends c before :=
        hbefore.same rfl rfl fun hmem => Finset.mem_of_mem_insert_of_ne hmem hc
      exact ⟨before, hjoin.tell _ kAskId, hfirst⟩

/-! ### The completions -/

theorem Owes.settle (h : Owes nothing σ) (hb : Books max σ) (hm : Mailed nothing σ σ') :
    Owes nothing σ' := h.mailed hb hm fun _ _ => rfl

theorem Owes.handled (h : Owes nothing σ) (env : Env) (hb : Books max σ)
    (hid : (σ.sessions s).id ≠ 0) (packet : List UInt8) :
    Owes nothing (onPacket env s packet (σ.emit (.packet s (σ.sessions s).id packet))) := by
  set τ := σ.emit (.packet s (σ.sessions s).id packet)
  have hbooks : Books max τ := hb.emit _
  have hahead : Owes (σ.promised s packet) τ := h.packet hb s packet
  have hcall := onPacket_dispatch env s packet τ
  unfold Server.promised at hahead
  cases hd : dispatch packet with
  | none =>
    rw [hd] at hcall hahead
    obtain ⟨text, hlog⟩ := hcall
    rw [hlog]
    exact hahead.settle hbooks (mailed_emit τ rfl rfl)
  | some handler =>
    rw [hd] at hcall hahead
    change onPacket env s packet τ = _ at hcall
    rw [hcall]
    have hrun : Mailed (handler.pushes τ s packet) τ (handler.run env s packet τ) :=
      mailed_run env hbooks hid (dispatch_eq_some.mp hd)
    exact hahead.mailed hbooks hrun fun _ _ => (List.append_nil _).symm

theorem Books.packetDone (hb : Books max σ) (n : ℕ) (rx : RingBuffer) (hid : (σ.sessions s).id ≠ 0) :
    Books max (packetDone env s n rx σ) := by
  have hring : Books max (σ.setRx s rx) := hb.setQuiet rfl rfl rfl
  exact (hring.emit _).acts (packetDone_handles env n rx hid hb.grounded.known)

theorem Drained.owes (h : Drained env s σ σ') (hb : Books max σ) (hid : (σ.sessions s).id ≠ 0)
    (ho : Owes nothing σ) : Owes nothing σ' := by
  induction h with
  | waits σ hv => exact ho.settle hb (mailed_postRecv env hid)
  | stops σ text hv =>
    have hlog : Mailed nothing σ (σ.emit (.log .warn text)) := mailed_emit σ rfl rfl
    have hmark := hlog.before (mailed_emit _ (e := .malformed s (σ.sessions s).id) rfl rfl)
    exact ho.settle hb (hmark.before (mailed_closeSession (by exact hid)))
  | packet σ σ' n rx hv hcap hrx hrest ih =>
    refine ih (hb.packetDone n rx hid) (packetDone_id env n rx hid hb.grounded.known) ?_
    have hring : Owes nothing (σ.setRx s rx) := ho.settle hb (mailed_setRx σ s rx)
    have hid' := σ.id_setRx s s rx
    have hcall := hring.handled env (hb.setQuiet rfl rfl rfl) (hid'.trans_ne hid)
      ((σ.sessions s).rx.content.take n)
    rw [hid'] at hcall
    exact hcall

theorem Owes.recvCompletion (ho : Owes nothing σ) (hb : Books max σ) (hid : (σ.sessions s).id ≠ 0)
    {n : ℕ} (h : recvCompletion env s n σ = some σ') : Owes nothing σ' := by
  rcases recvCompletion_cases hid hb.grounded.known h with rfl | ⟨rx, data, ⟨text, rfl⟩ | hdrained⟩
  · exact ho.settle hb (mailed_closeSession hid)
  · have hid' := (σ.id_stored s s rx data).trans_ne hid
    have hlog : Mailed nothing σ ((σ.stored s rx data).emit (.log .warn text)) :=
      (mailed_stored σ s rx data).before (mailed_emit _ rfl rfl)
    exact ho.settle hb (hlog.before (mailed_closeSession hid'))
  · exact hdrained.owes (hb.stored s rx data) ((σ.id_stored s s rx data).trans_ne hid)
      (ho.settle hb (mailed_stored σ s rx data))

theorem Owes.acceptCompletion (ho : Owes nothing σ) (hb : Books max σ) {fuel : ℕ} {op : AcceptOp}
    (h : acceptCompletion env fuel op σ = some σ') : Owes nothing σ' := by
  have hside (τ : Server) (acc : AcceptSide) (socks : List ℕ) : Mailed nothing τ (τ.side acc socks) :=
    (mailed_refl τ).as rfl rfl rfl
  rcases acceptCompletion_cases h with ⟨-, acc, socks, rfl⟩ |
    ⟨s, free, acc, socks, acc', socks', hf, rfl⟩
  · exact ho.settle hb (hside σ acc socks)
  · have hid := connect_id_ne hb.grounded.idGen s free op.acceptSock
    have hpost := (mailed_postRecv env hid).before (hside _ acc socks)
    have hgreet := (mailed_onClientConnected env ((hpost.id s).trans_ne hid)).before
      (hside _ acc' socks')
    refine (ho.connect hb hf).mailed (hb.connects hf _) (hgreet.after hpost) ?_
    exact fun _ _ => (List.append_nil _).symm

theorem Owes.step (ho : Owes nothing σ) (hb : Books max σ) {e : Event} (hown : e.own = true)
    (hstep : step env σ e = some σ') : Owes nothing σ' := by
  have hsame {τ : Server} (hs : τ.sessions = σ.sessions) (hg : τ.sessionIdGen = σ.sessionIdGen)
      (ht : τ.trace = σ.trace) : Mailed nothing σ τ := (mailed_refl σ).as hs hg ht
  cases step_cases hstep with
  | @accept i fuel op _ hop haccept =>
    have hdeq : Owes nothing (σ.dequeueAccept i) := ho.settle hb (hsame rfl rfl rfl)
    exact hdeq.acceptCompletion (hb.side _ σ.closedSocks) haccept
  | fill hop hd hlen => exact ho.settle hb (hsame rfl rfl rfl)
  | @recv i op data _ hop hd hrecv =>
    have hdeq : Owes nothing (σ.dequeueRecv i) := ho.settle hb (hsame rfl rfl rfl)
    exact hdeq.recvCompletion (hb.dequeueRecv i) (hb.recvs op (List.mem_of_getElem? hop)) hrecv
  | @send i op hop =>
    have hid : ((σ.dequeueSend i).sessions op.sess).id ≠ 0 :=
      hb.sends op (List.mem_of_getElem? hop)
    have hdeq : Mailed nothing σ (σ.dequeueSend i) := hsame rfl rfl rfl
    exact ho.settle hb (hdeq.before (mailed_postSend env hid))
  | enqueueSend hid => contradiction
  | broadcast => contradiction
  | closeSession hid => exact ho.settle hb (mailed_closeSession hid)

theorem owes_run {maxSessions n fuel : ℕ} {σ₀ : Server} {ok : Server → Event → Prop}
    {es : List Event} (hok : ∀ σ e, ok σ e → e.own = true)
    (hstart : start env maxSessions n fuel = some σ₀) (h : Exec (IocpChat.step env) ok σ₀ es σ) :
    Owes nothing σ := by
  refine invariant_run (P := Owes nothing) hstart ?_ ?_ h
  · intro acc socks
    have hnew := owes_new maxSessions
    exact ⟨hnew.member, hnew.queued, hnew.mail, hnew.fresh, hnew.authors, hnew.attends⟩
  · intro σ e σ' hb ho hallowed hstep
    exact ho.step hb (hok σ e hallowed) hstep

/-! ### The refinement -/

theorem Owes.serves (ho : Owes nothing σ) (hb : Books max σ) : σ.Serves σ.room where
  member := ho.member
  count := ho.card hb
  mail s k := by
    obtain ⟨stale, hstale, hpre, heq⟩ := ho.mail s k
    refine ⟨stale, hstale, hpre, ?_⟩
    rintro hopen rfl
    rw [← heq hopen rfl]
    exact (List.append_nil _).symm

/-- In every run of the server it serves the room that follows its record. -/
theorem serves_room {maxSessions n fuel : ℕ} {σ₀ σ : Server} {es : List Event}
    (hstart : start env maxSessions n fuel = some σ₀)
    (h : Exec (step env) (fun _ e => e.own = true) σ₀ es σ) : σ.Serves (.of σ.trace) :=
  (owes_run (fun _ _ hown => hown) hstart h).serves (books_run hstart h)

/-- What a client sends that calls itself "a" and says "hi". -/
def introduction : List UInt8 :=
  [36, 0, 11, 0, 97] ++ List.replicate 31 0 ++
    ([44, 1, 1, 0, 97] ++ List.replicate 31 0 ++ [104, 105] ++ List.replicate 254 0 ++
      List.replicate 8 0)

/-- Two clients connect, and the second one talks. -/
def conversation : List Event := [.accept 0 1, .accept 0 1, .fill 1 introduction, .recv 1]

theorem serves_conversation : ∃ σ : Server, σ.Open 1 ∧ (σ.sessions 1).sendQueue.length = 1 ∧
    σ.Serves (.of σ.trace) := by
  obtain ⟨σ₀, σ, hstart, hrun, hclosing, hid, hqueue⟩ : ∃ σ₀ σ, start .calm 2 2 1 = some σ₀ ∧
      Exec (step .calm) (fun _ e => e.own = true) σ₀ conversation σ ∧
        (σ.sessions 1).closing = false ∧ (σ.sessions 1).id = 1 ∧
        (σ.sessions 1).sendQueue.length = 1 := exists_run (by decide +kernel)
  exact ⟨σ, ⟨hclosing, by simp [hid]⟩, hqueue, serves_room hstart hrun⟩

/-! ### Runs that find the queues empty -/

/-- The messages handed to `WSASend` for a connection were pushed for it. -/
theorem OwnMessages.handedTo (h : OwnMessages σ) {s k : ℕ} {m : Msg} (hm : m ∈ σ.handedTo s k) :
    m.conn = k := by
  obtain ⟨e, he, hmem⟩ := List.mem_flatMap.mp hm
  cases e with
  | wsaSend t j sock batch ok =>
    simp only [Effect.handedTo] at hmem
    split_ifs at hmem with hc
    · obtain ⟨rfl, rfl⟩ := hc
      exact h t j sock batch ok he m hmem
    · exact absurd hmem List.not_mem_nil
  | _ => exact absurd hmem List.not_mem_nil

theorem eq_nil_of_stale {stale xs ys : List Msg} {k : ℕ} (hstale : ∀ m ∈ stale, m.conn < k)
    (hown : ∀ m ∈ xs, m.conn = k) (h : xs <+: stale ++ ys) : xs = [] ∨ stale = [] := by
  cases xs with
  | nil => exact .inl rfl
  | cons x xs =>
    cases stale with
    | nil => exact .inr rfl
    | cons m stale =>
      obtain ⟨rfl, -⟩ := List.cons_prefix_cons.mp h
      have hlt := hstale x (List.mem_cons_self ..)
      rw [hown x (List.mem_cons_self ..)] at hlt
      exact absurd hlt (lt_irrefl _)

theorem tagged_run {maxSessions n fuel : ℕ} {σ₀ : Server} {ok : Server → Event → Prop}
    {es : List Event} (hok : ∀ σ e, ok σ e → AcceptsFrom EmptyQueue σ e)
    (hstart : start env maxSessions n fuel = some σ₀) (h : Exec (step env) ok σ₀ es σ) : Tagged σ := by
  refine invariant_run (P := Tagged) hstart ?_ ?_ h
  · intro acc socks
    exact ⟨(tagged_new maxSessions).queued, (tagged_new maxSessions).sent⟩
  · intro σ e σ' hb ht hallowed hstep
    exact ht.moves (step_moves hb.grounded ((hok σ e hallowed).all fun _ _ hC => hC) hstep)

/-- Without messages of earlier connections the refinement is exact. -/
theorem Server.Serves.exact {r : ChatRoom} (h : σ.Serves r) (htagged : Tagged σ) (s k : ℕ) :
    σ.handedTo s k <+: r.mail (s, k) ∧ (σ.Open s → (σ.sessions s).id = k →
      σ.handedTo s k ++ (σ.sessions s).sendQueue = r.mail (s, k)) := by
  obtain ⟨stale, hstale, hpre, heq⟩ := h.mail s k
  constructor
  · rcases eq_nil_of_stale hstale (fun m => htagged.sent.handedTo) hpre with hnil | rfl
    · rw [hnil]
      exact List.nil_prefix
    · exact hpre
  · intro ho hk
    have hwhole := heq ho hk
    have hown : ∀ m ∈ σ.handedTo s k ++ (σ.sessions s).sendQueue, m.conn = k := by
      intro m hm
      rcases List.mem_append.mp hm with hm | hm
      · exact htagged.sent.handedTo hm
      · exact (htagged.queued s ho m hm).trans hk
    rcases eq_nil_of_stale hstale hown ⟨[], (List.append_nil _).trans hwhole⟩ with hnil | rfl
    · rw [hnil] at hwhole
      obtain ⟨-, hmail⟩ := List.append_eq_nil_iff.mp hwhole.symm
      rw [hnil, hmail]
    · exact hwhole

/-- If every accept finds an empty queue, a connection gets exactly what it was told in the
room: all of it while it is open, the first part of it if it was closed. -/
theorem serves_exactly {maxSessions n fuel : ℕ} {σ₀ σ : Server} {es : List Event}
    (hstart : start env maxSessions n fuel = some σ₀)
    (h : Exec (step env) (fun σ e => e.own = true ∧ AcceptsFrom EmptyQueue σ e) σ₀ es σ) :
    ∀ s k, σ.handedTo s k <+: (ChatRoom.of σ.trace).mail (s, k) ∧
      (σ.Open s → (σ.sessions s).id = k →
        σ.handedTo s k ++ (σ.sessions s).sendQueue = (ChatRoom.of σ.trace).mail (s, k)) := by
  have hserves := (owes_run (fun _ _ hok => hok.1) hstart h).serves (books_run hstart h)
  exact hserves.exact (tagged_run (fun _ _ hok => hok.2) hstart h)

theorem serves_exactly_conversation : ∃ σ : Server, (σ.sessions 1).sendQueue.length = 1 ∧
    σ.handedTo 1 1 ++ (σ.sessions 1).sendQueue = (ChatRoom.of σ.trace).mail (1, 1) := by
  obtain ⟨σ₀, σ, hstart, hrun, hclosing, hid, hqueue⟩ : ∃ σ₀ σ, start .calm 2 2 1 = some σ₀ ∧
      Exec (step .calm) (fun σ e => e.own = true ∧ AcceptsFrom EmptyQueue σ e) σ₀ conversation σ ∧
        (σ.sessions 1).closing = false ∧ (σ.sessions 1).id = 1 ∧
        (σ.sessions 1).sendQueue.length = 1 := exists_run (by decide +kernel)
  exact ⟨σ, hqueue, (serves_exactly hstart hrun 1 1).2 ⟨hclosing, by simp [hid]⟩ hid⟩

end IocpChat
