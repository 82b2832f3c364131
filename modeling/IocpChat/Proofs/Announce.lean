import IocpChat.Proofs.Acts
import IocpChat.Spec.Announce
import IocpChat.Spec.Dispatch

/-! What the handling of a packet tells the other clients, and when it may close the
session of its sender. -/

namespace IocpChat

open Relation (ReflTransGen)

variable {env : Env} {s : ℕ} {σ σ' : Server}

theorem dispatches_iff {t : PacketType} {size : ℕ} {packet : List UInt8} :
    dispatches t size packet = true ↔
      ¬packet.length < kHeaderSize ∧
      ¬(!isHeaderValid (PacketHeader.ofBytes packet) ||
        packet.length < (PacketHeader.ofBytes packet).size.toNat) = true ∧
      (PacketHeader.ofBytes packet).id = t.toId ∧
      (PacketHeader.ofBytes packet).size.toNat = size := by
  simp [dispatches, and_assoc]

theorem processOnePacket_chat {packet : List UInt8} (h : isChat packet = true) :
    processOnePacket env s packet σ = handleChatMessage env s (.ofBytes packet) σ := by
  obtain ⟨hlen, hvalid, hid, hsize⟩ := dispatches_iff.mp h
  have hlogin : PacketType.chatMessage.toId ≠ PacketType.loginReq.toId := by decide
  rw [hsize] at hvalid
  simp only [processOnePacket, if_neg hlen, if_neg hvalid, hid, if_neg hlogin, hsize, if_true]

theorem processOnePacket_exit {packet : List UInt8} (h : isExit packet = true) :
    processOnePacket env s packet σ = handleExit env s packet σ := by
  obtain ⟨hlen, hvalid, hid, hsize⟩ := dispatches_iff.mp h
  have hlogin : PacketType.exit.toId ≠ PacketType.loginReq.toId := by decide
  have hchat : PacketType.exit.toId ≠ PacketType.chatMessage.toId := by decide
  rw [hsize] at hvalid
  simp only [processOnePacket, if_neg hlen, if_neg hvalid, hid, if_neg hlogin, if_neg hchat, hsize,
    if_true]

theorem isExit_of_isChat {packet : List UInt8} (h : isChat packet = true) :
    isExit packet = false := by
  have hne : PacketType.chatMessage.toId ≠ PacketType.exit.toId := by decide
  rw [Bool.eq_false_iff]
  intro hexit
  exact hne ((dispatches_iff.mp h).2.2.1.symm.trans (dispatches_iff.mp hexit).2.2.1)

/-- A packet of which the others are not told is logged, or answered. -/
theorem processOnePacket_silent (hid : (σ.sessions s).id ≠ 0) {packet : List UInt8}
    (hchat : isChat packet = false) (hexit : isExit packet = false) (cur : Option ℕ) :
    Acts env cur (fun e => e.isLog = true) σ (processOnePacket env s packet σ) := by
  rw [Bool.eq_false_iff] at hchat hexit
  unfold processOnePacket sizeMismatch
  dsimp only
  split_ifs with hlen hvalid hlogin hls hc hcs he hes hcount hus
  any_goals exact acts_note .refl (by rfl)
  · exact handleLogin_acts hid (fun _ _ => rfl) packet
  · exact absurd (dispatches_iff.mpr ⟨hlen, hvalid, hc, hcs⟩) hchat
  · exact absurd (dispatches_iff.mpr ⟨hlen, hvalid, he, hes⟩) hexit
  · exact handleUserCount_acts hid fun _ _ => rfl

theorem handleExit_eq {packet : List UInt8} (h : isExit packet = true) :
    handleExit env s packet σ = closeSession s (broadcast env
      (exitNotice (PKExit.new.deserialize packet)) (some s)
      (σ.announcing s (ascii "Exit packet: session=" ++ decimal (σ.sessions s).id)
        (some (exitNotice (PKExit.new.deserialize packet))))) := by
  obtain ⟨hlen, hvalid, hid, hsize⟩ := dispatches_iff.mp h
  have hlong : ¬packet.length < kHeaderSize + PKExitBody.layout.size := by
    rw [hsize] at hvalid
    simp only [Bool.or_eq_true, decide_eq_true_eq, not_or] at hvalid
    exact hvalid.2
  simp only [handleExit, if_neg hlong, Server.announcing]

theorem handleExit_announces (hid : (σ.sessions s).id ≠ 0) (hk : σ.Known) {packet : List UInt8}
    (h : isExit packet = true) :
    ∃ text, Acts env (some s) (fun e => e.isLog = true)
      (σ.announcing s text (some (exitNotice (PKExit.new.deserialize packet))))
      (handleExit env s packet σ) := by
  rw [handleExit_eq h]
  set text := ascii "Exit packet: session=" ++ decimal (σ.sessions s).id
  set bytes := exitNotice (PKExit.new.deserialize packet)
  set τ := σ.announcing s text (some bytes)
  have hcast : Acts env (some s) (fun e => e.isLog = true) τ (broadcast env bytes (some s) τ) :=
    broadcast_acts (by exact hk) _ _
  refine ⟨text, hcast.trans (closeSession_acts ?_)⟩
  rw [hcast.kept.id]
  exact hid

/-- A handler announces the packet, if it does, before anything else; only that of an
exit closes the session itself. -/
theorem onPacket_announces (env : Env) (hid : (σ.sessions s).id ≠ 0) (hk : σ.Known) (packet : List UInt8) :
    ∃ text, Acts env (if isExit packet then some s else none) (fun e => e.isLog = true)
      (σ.announcing s text (announce packet)) (onPacket env s packet σ) := by
  unfold onPacket announce
  by_cases hchat : isChat packet = true
  · have hlen := (dispatches_iff.mp hchat).1
    rw [if_neg hlen, if_pos hchat, isExit_of_isChat hchat, processOnePacket_chat hchat]
    exact ⟨_, broadcast_acts (by exact hk) _ _⟩
  by_cases hexit : isExit packet = true
  · have hlen := (dispatches_iff.mp hexit).1
    rw [if_neg hlen, if_neg hchat, if_pos hexit, if_pos hexit, processOnePacket_exit hexit]
    exact handleExit_announces hid hk hexit
  · rw [if_neg hchat, if_neg hexit]
    refine ⟨[], ?_⟩
    split_ifs
    · exact acts_note .refl rfl
    · exact processOnePacket_silent hid (by simpa using hchat) (by simpa using hexit) _

theorem announcing_acts {cur : Option ℕ} (text : List UInt8) (packet : List UInt8) :
    Handles env cur σ (σ.announcing s text (announce packet)) := by
  cases announce packet with
  | none => exact .refl
  | some bytes => exact acts_note (acts_note .refl (by rfl)) (by rfl)

theorem onPacket_acts (hid : (σ.sessions s).id ≠ 0) (hk : σ.Known) (packet : List UInt8) :
    Handles env (some s) σ (onPacket env s packet σ) := by
  obtain ⟨text, hacts⟩ := onPacket_announces env hid hk packet
  refine (announcing_acts text packet).trans (hacts.mono (fun t ht => ?_) fun e he => ?_)
  · split_ifs at ht
    exact ht
  · cases e <;> first | rfl | simp [Effect.isLog] at he

end IocpChat
