import IocpChat.Proofs.Silence
import IocpChat.Proofs.Texts
import IocpChat.Spec.Dispatch

/-! What the dispatcher makes of a buffer: which handler it calls, what the two requests
that are answered add to the queue of their sender, and that nothing else happens. -/

namespace IocpChat

open SendPath (popBatch popBatch_append)

variable {env : Env} {s : ℕ} {buf : List UInt8} {σ : Server}

namespace Handler

theorem four_le_length (h : Handler) : kHeaderSize ≤ h.length := by
  cases h <;> decide

theorem type_injective {g h : Handler} (heq : g.type = h.type) : g = h := by
  cases g <;> cases h <;> first | rfl | exact absurd heq (by decide)

theorem takes_iff {h : Handler} : h.Takes buf ↔ dispatches h.type h.length buf = true := by
  have hle := h.four_le_length
  simp only [Takes, dispatches, isHeaderValid, Bool.and_eq_true, decide_eq_true_eq, and_assoc]
  constructor
  · rintro ⟨hlen, hsize, hid, heq⟩
    exact ⟨hlen, by omega, hsize, hid, heq⟩
  · rintro ⟨hlen, -, hsize, hid, heq⟩
    exact ⟨hlen, hsize, hid, heq⟩

theorem Takes.unique {g h : Handler} (hg : g.Takes buf) (hh : h.Takes buf) : g = h :=
  type_injective (PacketType.toId_injective (hg.2.2.1.symm.trans hh.2.2.1))

end Handler

theorem dispatch_eq_some {h : Handler} : dispatch buf = some h ↔ h.Takes buf := by
  have htaken {g : Handler} (hg : dispatch buf = some g) : g.Takes buf :=
    of_decide_eq_true (List.find?_some (p := fun h : Handler => decide (h.Takes buf)) hg)
  refine ⟨htaken, ?_⟩
  intro htakes
  cases hfound : dispatch buf with
  | some g => rw [(htaken hfound).unique htakes]
  | none =>
    have hmem : h ∈ [Handler.login, .chatMessage, .exit, .userCount] := by cases h <;> decide
    have hno := List.find?_eq_none.mp hfound h hmem
    exact absurd (decide_eq_true htakes) hno

theorem dispatch_eq_none : dispatch buf = none ↔ ∀ h : Handler, ¬ h.Takes buf := by
  rw [Option.eq_none_iff_forall_ne_some]
  exact forall_congr' fun h => not_congr dispatch_eq_some

/-- The dispatcher calls the handler that takes the buffer. -/
theorem processOnePacket_run {h : Handler} (htakes : h.Takes buf) :
    processOnePacket env s buf σ = h.run env s buf σ := by
  have hdisp := Handler.takes_iff.mp htakes
  obtain ⟨hlen, hvalid, hid, hsize⟩ := dispatches_iff.mp hdisp
  cases h with
  | chatMessage => exact processOnePacket_chat hdisp
  | exit => exact processOnePacket_exit hdisp
  | login =>
    rw [hsize] at hvalid
    simp only [processOnePacket, if_neg hlen, hid, hsize, if_neg hvalid]
    rfl
  | userCount =>
    rw [hsize] at hvalid
    simp only [processOnePacket, if_neg hlen, hid, hsize, if_neg hvalid]
    rfl

/-- A buffer that no handler takes is an error in the log. -/
theorem processOnePacket_log (hnone : ∀ h : Handler, ¬ h.Takes buf) :
    ∃ text, processOnePacket env s buf σ = σ.emit (.log .error text) := by
  have hno (h : Handler) := mt Handler.takes_iff.mpr (hnone h)
  unfold processOnePacket sizeMismatch
  dsimp only
  split_ifs with hlen hvalid hlogin hls hchat hcs hexit hes hcount hus
  any_goals exact ⟨_, rfl⟩
  · exact absurd (dispatches_iff.mpr ⟨hlen, hvalid, hlogin, hls⟩) (hno .login)
  · exact absurd (dispatches_iff.mpr ⟨hlen, hvalid, hchat, hcs⟩) (hno .chatMessage)
  · exact absurd (dispatches_iff.mpr ⟨hlen, hvalid, hexit, hes⟩) (hno .exit)
  · exact absurd (dispatches_iff.mpr ⟨hlen, hvalid, hcount, hus⟩) (hno .userCount)

/-! ### What an answer adds -/

theorem enqueueSend_answers (env : Env) (s : ℕ) (packet : List UInt8) (σ : Server) :
    Answers s packet σ (enqueueSend env s packet σ) where
  others t ht := enqueueSend_of_ne ht packet
  closed hc := ⟨[], by simp, by rw [enqueueSend_of_closing hc, Server.record, List.append_nil]⟩
  opened hc := by
    have hsplit (ok : Bool) (es : List Effect) (hes : es.flatMap Effect.batch = []) :
        (σ.firstSend s packet ok :: es).flatMap Effect.batch ++
          (popBatch ((σ.sessions s).queued packet)).2 = (σ.sessions s).queued packet := by
      rw [List.flatMap_cons, hes, List.append_nil]
      exact popBatch_append _
    cases hsending : (σ.sessions s).sending with
    | true =>
      rw [enqueueSend_busy env packet hc hsending, Server.sessions_set_self]
      exact ⟨[], (List.append_nil _).symm, rfl⟩
    | false =>
      have hbatched : (σ.batched s packet).sessions s = { σ.sessions s with
          sendQueue := (popBatch ((σ.sessions s).queued packet)).2, sending := true } := by
        rw [Server.batched, Server.sessions_set_self]
      rw [enqueueSend_idle env packet hc hsending]
      split_ifs with hfails
      · set τ := (σ.batched s packet).emit (σ.firstSend s packet false)
        have hτ : τ.sessions s = _ := hbatched
        have hopen : (τ.sessions s).closing = false := by rw [hτ]; exact hc
        refine ⟨[σ.firstSend s packet false, .closed s (τ.sessions s).id], ?_, ?_⟩
        · rw [trace_closeSession hopen]
          exact List.append_assoc _ _ _
        · rw [sessions_closeSession hopen, if_pos rfl, hτ]
          exact hsplit false _ rfl
      · refine ⟨[σ.firstSend s packet true], rfl, ?_⟩
        rw [Server.sessions_emit, hbatched]
        exact hsplit true [] rfl

theorem Answers.log {packet : List UInt8} {σ' : Server} (h : Answers s packet σ σ')
    (level : LogLevel) (text : List UInt8) : Answers s packet σ (σ'.emit (.log level text)) where
  others := h.others
  closed hc := by
    obtain ⟨es, hlogs, rfl⟩ := h.closed hc
    refine ⟨es ++ [.log level text], ?_, ?_⟩
    · intro e he
      rcases List.mem_append.mp he with he | he
      · exact hlogs e he
      · rw [List.mem_singleton.mp he]
        rfl
    · rw [Server.record, Server.record, Server.emit, List.append_assoc]
  opened hc := by
    obtain ⟨es, htrace, hqueue⟩ := h.opened hc
    refine ⟨es ++ [.log level text], ?_, ?_⟩
    · rw [Server.emit, htrace, List.append_assoc]
    · rw [List.flatMap_append]
      simpa [Effect.batch] using hqueue

/-- What is logged first does not change the answer. -/
theorem Answers.logged {packet : List UInt8} {level : LogLevel} {text : List UInt8} {σ' : Server}
    (h : Answers s packet (σ.emit (.log level text)) σ') : Answers s packet σ σ' where
  others := h.others
  closed hc := by
    obtain ⟨es, hlogs, rfl⟩ := h.closed hc
    refine ⟨.log level text :: es, List.forall_mem_cons.mpr ⟨rfl, hlogs⟩, ?_⟩
    rw [Server.record, Server.record, Server.emit, List.append_assoc, List.singleton_append]
  opened hc := by
    obtain ⟨es, htrace, hqueue⟩ := h.opened hc
    refine ⟨.log level text :: es, ?_, hqueue⟩
    rw [htrace, Server.emit, List.append_assoc, List.singleton_append]

/-! ### What the handlers do -/

/-- The inner `Deserialize` takes what the dispatcher has let through. -/
theorem Handler.Takes.isValid {β : Type} {fmt : Packed β} {h : Handler} (htakes : h.Takes buf)
    (hfmt : h.length = kHeaderSize + fmt.size) : Packet.isValid h.type fmt buf = true := by
  obtain ⟨-, hle, hid, hsize⟩ := htakes
  rw [hfmt] at hsize
  exact Packet.isValid_iff.mpr ⟨by omega, hid, hsize⟩

theorem handleLogin_serves (htakes : Handler.login.Takes buf) :
    Handler.login.Serves s buf σ (handleLogin env s buf σ) := by
  have hvalid : PKLoginReq.isValid buf = true := htakes.isValid rfl
  have hname := PKLoginReq.nickname_deserialize hvalid .new
  have hfirst : ((PKLoginReq.new.deserialize buf).body.nickname.toList.headD 0) = buf.getD 4 0 := by
    have hlen : 4 < buf.length := by
      have := (Packet.isValid_iff.mp hvalid).1
      have : PKLoginReqBody.layout.size = 32 := rfl
      omega
    rw [hname, List.drop_eq_getElem_cons hlen, List.getD_eq_getElem?_getD,
      List.getElem?_eq_getElem hlen]
    rfl
  refine ⟨hvalid, Packet.body_deserialize hvalid _, _, PKLoginAck.ownHeader_ofFields _ _ _ _, rfl, ?_,
    rfl, (enqueueSend_answers env s _ σ).log _ _⟩
  rw [← hfirst]
  change (if decide _ = true then (1 : UInt8) else 0) = _
  simp only [decide_eq_true_eq]

theorem handleExit_serves (htakes : Handler.exit.Takes buf) (σ' : Server) :
    Handler.exit.Serves s buf σ σ' := by
  have hvalid : PKExit.isValid buf = true := htakes.isValid rfl
  exact ⟨hvalid, Packet.body_deserialize hvalid _⟩

theorem handleUserCount_serves :
    Handler.userCount.Serves s buf σ (handleUserCount env s σ) :=
  ⟨_, PKUserCountAck.ownHeader_ofCount _, rfl, (enqueueSend_answers env s _ _).logged⟩

/-- A buffer is handled by the one handler whose grammar it is in, or logged as an error and
nothing else. -/
theorem dispatcher_exact (env : Env) (s : ℕ) (buf : List UInt8) (σ : Server) :
    (∀ h, dispatch buf = some h ↔ h.Takes buf) ∧
    match dispatch buf with
    | some h => processOnePacket env s buf σ = h.run env s buf σ ∧
        h.Serves s buf σ (h.run env s buf σ)
    | none => ∃ text, processOnePacket env s buf σ = σ.emit (.log .error text) := by
  refine ⟨fun h => dispatch_eq_some, ?_⟩
  cases hd : dispatch buf with
  | none => exact processOnePacket_log (dispatch_eq_none.mp hd)
  | some h =>
    have htakes := dispatch_eq_some.mp hd
    refine ⟨processOnePacket_run htakes, ?_⟩
    cases h with
    | login => exact handleLogin_serves htakes
    | chatMessage => exact ChatMessagePacket.toBytes_ofBytes (htakes.2.2.2.symm.trans_le htakes.2.1)
    | exit => exact handleExit_serves htakes _
    | userCount => exact handleUserCount_serves

end IocpChat
