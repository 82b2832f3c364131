import IocpChat.Proofs.Messages
import IocpChat.Proofs.SendLoop
import IocpChat.Spec.ChatRoom

/-! The way of a message: it is pushed for an open Session, waits in its queue, and is
handed to `WSASend` behind everything pushed before. A part of a handler is described by
what it pushes for each Session. -/

namespace IocpChat

open SendPath (popBatch popBatch_append)

variable {env : Env} {max s t : ℕ} {cur : Option ℕ} {data : List UInt8} {σ τ σ' υ : Server}

/-- The messages of the connection of a Session that were handed to `WSASend` or wait. -/
def Server.mail (σ : Server) (t : ℕ) : List Msg :=
  σ.handedTo t (σ.sessions t).id ++ (σ.sessions t).sendQueue

/-- The texts as messages for connection `k`. -/
def addressed (k : ℕ) (texts : List (List UInt8)) : List Msg := texts.map fun bytes => ⟨k, bytes⟩

theorem addressed_append (k : ℕ) (xs ys : List (List UInt8)) :
    addressed k (xs ++ ys) = addressed k xs ++ addressed k ys := List.map_append

/-- The room does not change because of the effect, unless it closes a connection. -/
def Effect.isInner : Effect → Bool
  | .accepted .. | .packet .. => false
  | _ => true

/-- For each Session `t` the texts `add t` were pushed, if it was open: they stand behind its
mail, of which a connection that was closed has got a part. -/
structure Mailed (add : ℕ → List (List UInt8)) (σ σ' : Server) : Prop where
  id : ∀ t, (σ'.sessions t).id = (σ.sessions t).id
  idGen : σ'.sessionIdGen = σ.sessionIdGen
  opens : ∀ t, σ'.Open t → σ.Open t
  queued : ∀ t, ∀ m ∈ (σ'.sessions t).sendQueue,
    m ∈ (σ.sessions t).sendQueue ∨ m.conn = (σ.sessions t).id
  kept : ∀ t, σ'.Open t → σ'.mail t = σ.mail t ++ addressed (σ.sessions t).id (add t)
  cut : ∀ t, σ.Open t →
    σ'.handedTo t (σ.sessions t).id <+: σ.mail t ++ addressed (σ.sessions t).id (add t)
  others : ∀ t k, ¬(σ.Open t ∧ (σ.sessions t).id = k) → σ'.handedTo t k = σ.handedTo t k
  trace : ∃ es, σ'.trace = σ.trace ++ es ∧ (∀ e ∈ es, e.isInner = true) ∧
    ∀ t k, Effect.closed t k ∈ es ↔ σ.Open t ∧ (σ.sessions t).id = k ∧ ¬σ'.Open t

/-- Nothing is pushed. -/
abbrev nothing : ℕ → List (List UInt8) := fun _ => []

/-- Something is pushed for one Session. -/
def only (t : ℕ) (data : List UInt8) : ℕ → List (List UInt8) := fun u => if u = t then [data] else []

variable {add add' : ℕ → List (List UInt8)}

theorem mailed_refl (σ : Server) : Mailed nothing σ σ where
  id _ := rfl
  idGen := rfl
  opens _ ho := ho
  queued _ _ hm := .inl hm
  kept t _ := (List.append_nil _).symm
  cut t _ := (List.prefix_append _ _).trans (List.prefix_append _ _)
  others _ _ _ := rfl
  trace := by
    refine ⟨[], (List.append_nil _).symm, fun e he => absurd he List.not_mem_nil, ?_⟩
    intro t k
    exact iff_of_false List.not_mem_nil fun h => h.2.2 h.1

theorem Mailed.trans (h : Mailed add σ τ) (h' : Mailed add' τ υ) :
    Mailed (fun t => add t ++ add' t) σ υ where
  id t := (h'.id t).trans (h.id t)
  idGen := h'.idGen.trans h.idGen
  opens t ho := h.opens t (h'.opens t ho)
  queued t m hm := by
    rcases h'.queued t m hm with hm | hm
    · exact h.queued t m hm
    · exact .inr (hm.trans (h.id t))
  kept t ho := by
    rw [h'.kept t ho, h.kept t (h'.opens t ho), h.id, addressed_append, List.append_assoc]
  cut t ho := by
    rw [addressed_append, ← List.append_assoc]
    by_cases hτ : τ.Open t
    · have hcut := h'.cut t hτ
      rwa [h.kept t hτ, h.id] at hcut
    · rw [h'.others t _ fun hopen => hτ hopen.1]
      exact (h.cut t ho).trans (List.prefix_append _ _)
  others t k hne := by
    rw [h'.others t k, h.others t k hne]
    rw [h.id]
    exact fun hopen => hne ⟨h.opens t hopen.1, hopen.2⟩
  trace := by
    obtain ⟨es, he, hinner, hclosed⟩ := h.trace
    obtain ⟨fs, hf, hinner', hclosed'⟩ := h'.trace
    refine ⟨es ++ fs, by rw [hf, he, List.append_assoc], ?_, ?_⟩
    · intro e hmem
      exact (List.mem_append.mp hmem).elim (hinner e) (hinner' e)
    · intro t k
      rw [List.mem_append, hclosed, hclosed', h.id]
      have hback := h.opens t
      have hback' := h'.opens t
      tauto

/-- Only what is pushed for an open Session counts. -/
theorem Mailed.congr (h : Mailed add σ σ') (hadd : ∀ t, σ.Open t → add' t = add t) :
    Mailed add' σ σ' where
  id := h.id
  idGen := h.idGen
  opens := h.opens
  queued := h.queued
  kept t ho := by rw [hadd t (h.opens t ho)]; exact h.kept t ho
  cut t ho := by rw [hadd t ho]; exact h.cut t ho
  others := h.others
  trace := h.trace

theorem Mailed.after (h' : Mailed add τ υ) (h : Mailed nothing σ τ) : Mailed add σ υ :=
  h.trans h'

theorem Mailed.before (h : Mailed add σ τ) (h' : Mailed nothing τ υ) : Mailed add σ υ :=
  (h.trans h').congr fun _ _ => (List.append_nil _).symm

/-- The Sessions, the record and the next id are all that matters. -/
theorem Mailed.as (h : Mailed add σ τ) (hs : σ'.sessions = τ.sessions)
    (hg : σ'.sessionIdGen = τ.sessionIdGen) (ht : σ'.trace = τ.trace) : Mailed add σ σ' := by
  have hopen (t : ℕ) : σ'.Open t ↔ τ.Open t := by rw [Server.Open, Server.Open, hs]
  have hhanded (t k : ℕ) : σ'.handedTo t k = τ.handedTo t k := by
    rw [Server.handedTo, Server.handedTo, ht]
  refine ⟨?_, hg.trans h.idGen, ?_, ?_, ?_, ?_, ?_, ?_⟩
  · rw [hs]
    exact h.id
  · intro t ho
    exact h.opens t ((hopen t).mp ho)
  · rw [hs]
    exact h.queued
  · intro t ho
    rw [Server.mail, hhanded, hs]
    exact h.kept t ((hopen t).mp ho)
  · intro t ho
    rw [hhanded]
    exact h.cut t ho
  · intro t k hne
    rw [hhanded]
    exact h.others t k hne
  · obtain ⟨es, he, hinner, hclosed⟩ := h.trace
    refine ⟨es, ht.trans he, hinner, ?_⟩
    intro t k
    rw [hclosed, hopen]

/-! ### The parts of `EnqueueSend` and `CloseSession` -/

theorem Server.handedTo_emit (σ : Server) (e : Effect) (t k : ℕ) :
    (σ.emit e).handedTo t k = σ.handedTo t k ++ e.handedTo t k := by
  simp [Server.handedTo, Server.emit]

theorem Effect.handedTo_of_not_isSend {e : Effect} (h : e.isSend = false) (t k : ℕ) :
    e.handedTo t k = [] := by
  cases e <;> first | rfl | simp [Effect.isSend] at h

theorem mailed_emit (σ : Server) {e : Effect} (hinner : e.isInner = true) (hsend : e.isSend = false) :
    Mailed nothing σ (σ.emit e) := by
  have hhanded (t k : ℕ) : (σ.emit e).handedTo t k = σ.handedTo t k := by
    rw [Server.handedTo_emit, Effect.handedTo_of_not_isSend hsend, List.append_nil]
  refine ⟨fun _ => rfl, rfl, fun _ ho => ho, fun _ _ hm => .inl hm, ?_, ?_, ?_, [e], rfl, ?_, ?_⟩
  · intro t _
    rw [Server.mail, hhanded]
    exact (List.append_nil _).symm
  · intro t _
    rw [hhanded]
    exact (List.prefix_append _ _).trans (List.prefix_append _ _)
  · intro t k _
    exact hhanded t k
  · intro e' he'
    rwa [List.mem_singleton.mp he']
  · intro t k
    refine iff_of_false ?_ fun h => h.2.2 h.1
    intro hclosed
    rw [← List.mem_singleton.mp hclosed] at hsend
    contradiction

/-- Texts are added to the queue of a Session that stays open or closed. -/
theorem mailed_set {x : Session} (texts : List (List UInt8)) (hid : x.id = (σ.sessions t).id)
    (hc : x.closing = (σ.sessions t).closing)
    (hq : x.sendQueue = (σ.sessions t).sendQueue ++ addressed (σ.sessions t).id texts) :
    Mailed (fun u => if u = t then texts else []) σ (σ.set t x) := by
  have hopen (u : ℕ) : (σ.set t x).Open u ↔ σ.Open u := Server.open_set_same hid hc u
  have hids (u : ℕ) : ((σ.set t x).sessions u).id = (σ.sessions u).id := by
    rw [σ.sessions_set]
    split_ifs with hu
    · rw [hid, hu]
    · rfl
  have hmail (u : ℕ) : (σ.set t x).mail u =
      σ.mail u ++ addressed (σ.sessions u).id (if u = t then texts else []) := by
    rw [Server.mail, hids, σ.sessions_set]
    split_ifs with hu
    · rw [hq, hu, ← List.append_assoc]
      rfl
    · exact (List.append_nil _).symm
  refine ⟨hids, rfl, fun u => (hopen u).mp, ?_, fun u _ => hmail u, ?_, fun _ _ _ => rfl, [],
    (List.append_nil _).symm, fun e he => absurd he List.not_mem_nil, ?_⟩
  · intro u m hm
    rw [σ.sessions_set] at hm
    split_ifs at hm with hu
    · rw [hq, List.mem_append] at hm
      rw [hu]
      refine hm.imp_right ?_
      intro hm
      obtain ⟨bytes, -, rfl⟩ := List.mem_map.mp hm
      rfl
    · exact .inl hm
  · intro u _
    exact (List.prefix_append _ _).trans (List.prefix_append _ _)
  · intro u k
    exact iff_of_false List.not_mem_nil fun h => h.2.2 ((hopen u).mpr h.1)

theorem mailed_quiet {x : Session} (hid : x.id = (σ.sessions t).id)
    (hc : x.closing = (σ.sessions t).closing) (hq : x.sendQueue = (σ.sessions t).sendQueue) :
    Mailed nothing σ (σ.set t x) := by
  refine (mailed_set [] hid hc (hq.trans (List.append_nil _).symm)).congr ?_
  intro u _
  exact (ite_self _).symm

theorem mailed_push (σ : Server) (t : ℕ) (data : List UInt8) :
    Mailed (only t data) σ (σ.push t data) := mailed_set [data] rfl rfl rfl

/-- A batch passes from the queue to `WSASend`. -/
theorem mailed_handed (ho : σ.Open t) (ok : Bool) : Mailed nothing σ (σ.handed t ok) := by
  have hsplit := popBatch_append (σ.sessions t).sendQueue
  have hset : σ.popSend t = σ.set t _ := rfl
  have hids (u : ℕ) : ((σ.handed t ok).sessions u).id = (σ.sessions u).id := by
    rw [Server.handed, Server.sessions_emit, hset, σ.sessions_set]
    split_ifs with hu
    · rw [hu]
    · rfl
  have hopen (u : ℕ) : (σ.handed t ok).Open u ↔ σ.Open u := σ.open_popSend u t
  have hhanded (u k : ℕ) : (σ.handed t ok).handedTo u k = σ.handedTo u k ++
      if t = u ∧ (σ.sessions t).id = k then (popBatch (σ.sessions t).sendQueue).1 else [] :=
    (σ.popSend t).handedTo_emit _ u k
  have hmail (u : ℕ) : (σ.handed t ok).mail u = σ.mail u := by
    rw [Server.mail, hids, hhanded, Server.handed, Server.sessions_emit, hset, σ.sessions_set]
    by_cases hu : u = t
    · subst hu
      rw [if_pos ⟨rfl, rfl⟩, if_pos rfl, List.append_assoc, hsplit]
      rfl
    · rw [if_neg fun h => hu h.1.symm, if_neg hu, List.append_nil]
      rfl
  refine ⟨hids, rfl, fun u => (hopen u).mp, ?_, ?_, ?_, ?_, [_], rfl, ?_, ?_⟩
  · intro u m hm
    rw [Server.handed, Server.sessions_emit, hset, σ.sessions_set] at hm
    split_ifs at hm with hu
    · rw [hu]
      exact .inl (mem_popBatch_snd hm)
    · exact .inl hm
  · intro u _
    exact (hmail u).trans (List.append_nil _).symm
  · intro u _
    have hmine := hmail u
    rw [Server.mail, hids] at hmine
    rw [← hmine]
    exact (List.prefix_append _ _).trans (List.prefix_append _ _)
  · intro u k hne
    rw [hhanded, if_neg, List.append_nil]
    rintro ⟨rfl, rfl⟩
    exact hne ⟨ho, rfl⟩
  · intro e he
    rw [List.mem_singleton.mp he]
    rfl
  · intro u k
    refine iff_of_false ?_ fun h => h.2.2 ((hopen u).mpr h.1)
    intro hclosed
    cases List.mem_singleton.mp hclosed

theorem mailed_close (ho : σ.Open t) : Mailed nothing σ (closeSession t σ) := by
  have hopen (u : ℕ) := open_closeSession ho.1 u
  have hses (u : ℕ) := sessions_closeSession ho.1 u
  have hqueue (u : ℕ) : ((closeSession t σ).sessions u).sendQueue = (σ.sessions u).sendQueue := by
    rw [hses]
    split_ifs with hu
    · rw [hu]
    · rfl
  have hhanded (u k : ℕ) : (closeSession t σ).handedTo u k = σ.handedTo u k := by
    rw [Server.handedTo, trace_closeSession ho.1, List.flatMap_append]
    exact List.append_nil _
  have hmail (u : ℕ) : (closeSession t σ).mail u = σ.mail u := by
    rw [Server.mail, hhanded, closeSession_id, hqueue]
    rfl
  refine ⟨fun u => closeSession_id t u σ, ?_, fun u hu => ((hopen u).mp hu).2, ?_, ?_, ?_, ?_, [_],
    trace_closeSession ho.1, ?_, ?_⟩
  · simp [closeSession, ho.1, Server.set]
  · intro u m hm
    rw [hqueue] at hm
    exact .inl hm
  · intro u _
    exact (hmail u).trans (List.append_nil _).symm
  · intro u _
    rw [hhanded]
    exact (List.prefix_append _ _).trans (List.prefix_append _ _)
  · intro u k _
    exact hhanded u k
  · intro e he
    rw [List.mem_singleton.mp he]
    rfl
  · intro u k
    rw [List.mem_singleton, Effect.closed.injEq, hopen]
    constructor
    · rintro ⟨rfl, rfl⟩
      exact ⟨ho, rfl, fun h => h.1 rfl⟩
    · rintro ⟨hu, rfl, hnot⟩
      by_cases hut : u = t
      · exact ⟨hut, by rw [hut]⟩
      · exact absurd ⟨hut, hu⟩ hnot

/-! ### The interface and the handlers -/

theorem mailed_closeSession (hid : (σ.sessions s).id ≠ 0) : Mailed nothing σ (closeSession s σ) := by
  by_cases hc : (σ.sessions s).closing = true
  · rw [closeSession_of_closing hc]
    exact mailed_refl σ
  · exact mailed_close (Server.open_of_not_closing hc hid)

theorem mailed_postSend (env : Env) (hid : (σ.sessions s).id ≠ 0) :
    Mailed nothing σ (postSend env s σ) := by
  by_cases hc : (σ.sessions s).closing = true
  · rw [postSend_of_closing hc]
    exact mailed_refl σ
  have ho := Server.open_of_not_closing hc hid
  simp only [postSend, ho.1, Bool.false_eq_true, if_false]
  split_ifs with hnil hok
  · have hq := SendPath.popBatch_eq_nil (List.isEmpty_iff.mp hnil)
    rw [Server.popSend_of_nil hq]
    exact mailed_quiet rfl rfl rfl
  · rw [hok]
    exact (mailed_handed ho true).as rfl rfl rfl
  · rw [Bool.not_eq_true] at hok
    rw [hok]
    exact (mailed_handed ho false).before (mailed_close (ho.handed false))

theorem mailed_enqueueSend (env : Env) (hid : (σ.sessions s).id ≠ 0) (data : List UInt8) :
    Mailed (only s data) σ (enqueueSend env s data σ) := by
  by_cases hc : (σ.sessions s).closing = true
  · rw [enqueueSend_of_closing hc]
    refine (mailed_refl σ).congr ?_
    intro t ho
    refine if_neg ?_
    rintro rfl
    rw [ho.1] at hc
    contradiction
  have ho := Server.open_of_not_closing hc hid
  have hpush := mailed_push σ s data
  have ho' : (σ.push s data).Open s := ho.of_set rfl rfl
  simp only [enqueueSend, ho.1, Bool.false_eq_true, if_false]
  split_ifs
  · exact hpush
  · have hclaim : Mailed nothing (σ.push s data) ((σ.push s data).setSending s true) :=
      mailed_quiet rfl rfl rfl
    refine (hpush.before hclaim).before (mailed_postSend env ?_)
    exact (ho'.of_set rfl rfl : ((σ.push s data).setSending s true).Open s).2

/-- What a broadcast pushes. -/
def others (exclude : Option ℕ) (data : List UInt8) : ℕ → List (List UInt8) :=
  fun t => if some t = exclude then [] else [data]

/-- The loop of a broadcast pushes for each of its targets. -/
theorem mailed_targets (env : Env) (data : List UInt8) (exclude : Option ℕ) {targets : List ℕ}
    (hnodup : targets.Nodup) (hid : ∀ t ∈ targets, (σ.sessions t).id ≠ 0) :
    Mailed (fun t => if t ∈ targets then others exclude data t else []) σ
      (targets.foldl (fun σ s => if some s = exclude then σ else enqueueSend env s data σ) σ) := by
  induction targets generalizing σ with
  | nil => exact mailed_refl σ
  | cons t targets ih =>
    obtain ⟨ht, hnodup⟩ := List.nodup_cons.mp hnodup
    obtain ⟨hidt, hids⟩ := List.forall_mem_cons.mp hid
    have hhead : Mailed (fun u => if u = t then others exclude data u else []) σ
        (if some t = exclude then σ else enqueueSend env t data σ) := by
      split_ifs with hex
      · refine (mailed_refl σ).congr ?_
        intro u _
        split_ifs with hu
        · exact if_pos (hu ▸ hex)
        · rfl
      · refine (mailed_enqueueSend env hidt data).congr ?_
        intro u _
        by_cases hu : u = t
        · rw [if_pos hu, only, if_pos hu]
          exact if_neg (hu ▸ hex)
        · rw [if_neg hu, only, if_neg hu]
    refine (hhead.trans (ih hnodup ?_)).congr ?_
    · intro u hu
      rw [hhead.id]
      exact hids u hu
    · intro u _
      by_cases hu : u = t
      · subst hu
        simp [ht]
      · simp [hu]

theorem mailed_broadcast (env : Env) (hb : Books max σ) (data : List UInt8) (exclude : Option ℕ) :
    Mailed (others exclude data) σ (broadcast env data exclude σ) := by
  have hperm := env.order_perm σ
  have hmem (t : ℕ) : t ∈ env.order σ ↔ σ.Open t := hperm.mem_iff.trans hb.mem_tabled
  refine (mailed_targets env data exclude (hperm.nodup_iff.mpr hb.tabled_nodup) ?_).congr ?_
  · intro t ht
    exact ((hmem t).mp ht).2
  · intro t ho
    rw [if_pos ((hmem t).mpr ho)]

theorem mailed_postRecv (env : Env) (hid : (σ.sessions s).id ≠ 0) :
    Mailed nothing σ (postRecv env s σ) := by
  have hemit (ok : Bool) : Mailed nothing σ (σ.emit (.wsaRecv s (σ.sessions s).id ok)) :=
    mailed_emit σ rfl rfl
  rcases postRecv_cases env s σ with ⟨-, he⟩ | ⟨hc, he | he⟩
  · rw [he]
    exact mailed_refl σ
  · rw [he]
    exact (hemit true).as rfl rfl rfl
  · rw [he]
    exact (hemit false).before (mailed_close ⟨hc, hid⟩)

theorem mailed_onClientConnected (env : Env) (hid : (σ.sessions s).id ≠ 0) :
    Mailed (only s kAskId) σ (onClientConnected env s σ) :=
  (mailed_enqueueSend env (by exact hid) kAskId).after (mailed_emit σ rfl rfl)

/-- What the handler of a packet pushes for each Session. -/
def Handler.pushes (σ : Server) (s : ℕ) (packet : List UInt8) : Handler → ℕ → List (List UInt8)
  | login =>
    let accepted : Bool := packet.getD 4 0 ≠ 0
    only s (PKLoginAck.serialize (.ofFields (UInt64.ofNat (σ.sessions s).id) accepted
      (if accepted then [] else ascii "invalid nickname") (getCurrentConnectionCount σ)))
  | chatMessage => others (some s) (chatRelay (ChatMessagePacket.ofBytes packet).safe)
  | exit => others (some s) (exitNotice (PKExit.new.deserialize packet))
  | userCount => only s (PKUserCountAck.serialize (.ofCount (getCurrentConnectionCount σ)))

/-- The first byte of the nickname decides about a login. -/
theorem PKLoginReq.first_deserialize {packet : List UInt8} (htakes : Handler.login.Takes packet) :
    (PKLoginReq.new.deserialize packet).body.nickname.toList.headD 0 = packet.getD 4 0 := by
  have hvalid : PKLoginReq.isValid packet = true := htakes.isValid rfl
  have hlen : 4 < packet.length := by
    obtain ⟨-, hle, -, hsize⟩ := htakes
    rw [hsize] at hle
    exact Nat.lt_of_lt_of_le (by decide) hle
  rw [PKLoginReq.nickname_deserialize hvalid .new, List.drop_eq_getElem_cons hlen,
    List.getD_eq_getElem?_getD, List.getElem?_eq_getElem hlen]
  rfl

theorem mailed_run (env : Env) (hb : Books max σ) (hid : (σ.sessions s).id ≠ 0)
    {packet : List UInt8} {h : Handler} (htakes : h.Takes packet) :
    Mailed (h.pushes σ s packet) σ (h.run env s packet σ) := by
  cases h with
  | login =>
    simp only [Handler.run, handleLogin, Handler.pushes, PKLoginReq.first_deserialize htakes]
    exact (mailed_enqueueSend env hid _).before (mailed_emit _ rfl rfl)
  | chatMessage =>
    set τ := σ.emit (.log .info (ascii "Chat [session " ++ decimal (σ.sessions s).id ++
      ascii "] [" ++ (toData (ChatMessagePacket.ofBytes packet).safe).sender ++ ascii "] " ++
      (toData (ChatMessagePacket.ofBytes packet).safe).message))
    have hlog : Mailed nothing σ τ := mailed_emit σ rfl rfl
    have hnote (e : Effect) (hinner : e.isInner = true) (hsend : e.isSend = false) :
        Mailed nothing σ (τ.emit e) := hlog.before (mailed_emit τ hinner hsend)
    exact (mailed_broadcast env ((hb.emit _).emit _) _ _).after (hnote _ rfl rfl)
  | exit =>
    have hexit : isExit packet = true := Handler.takes_iff.mp htakes
    simp only [Handler.run, handleExit_eq hexit, Handler.pushes]
    set bytes := exitNotice (PKExit.new.deserialize packet)
    set text := ascii "Exit packet: session=" ++ decimal (σ.sessions s).id
    have hlog : Mailed nothing σ (σ.emit (.log .info text)) := mailed_emit σ rfl rfl
    have hnote : Mailed nothing σ (σ.announcing s text (some bytes)) :=
      hlog.before (mailed_emit _ rfl rfl)
    have hbooks : Books max (σ.announcing s text (some bytes)) := (hb.emit _).emit _
    have hcast := (mailed_broadcast env hbooks bytes (some s)).after hnote
    refine hcast.before (mailed_closeSession ?_)
    exact (hcast.id s).trans_ne hid
  | userCount =>
    have hlog : Mailed nothing σ (σ.emit (.log .info (ascii "UserCount request from session=" ++
      decimal (σ.sessions s).id))) := mailed_emit σ rfl rfl
    exact (mailed_enqueueSend env (by exact hid) _).after hlog

/-! ### The completion of a receive -/

/-- The bytes of a receive are in the ring of the Session. -/
def Server.stored (σ : Server) (s : ℕ) (rx : RingBuffer) (data : List UInt8) : Server :=
  (σ.setRx s rx).emit (.received s (σ.sessions s).id data)

/-- A receive closes its Session, or its bytes are stored and the loop runs over the ring. -/
theorem recvCompletion_cases {n : ℕ} (hid : (σ.sessions s).id ≠ 0) (hk : σ.Known)
    (h : recvCompletion env s n σ = some σ') : σ' = closeSession s σ ∨ ∃ rx data,
      (∃ text, σ' = closeSession s ((σ.stored s rx data).emit (.log .warn text))) ∨
        Drained env s (σ.stored s rx data) σ' := by
  set data := σ.readMem (σ.sessions s).rxBuf n
  set rx := ((σ.sessions s).rx.append data n).2
  simp only [recvCompletion] at h
  split_ifs at h with h0 hnull hover <;> simp only [Option.some.injEq] at h <;> subst h
  · exact .inl rfl
  · exact .inr ⟨rx, data, .inl ⟨_, rfl⟩⟩
  · have hid' : ((σ.stored s rx data).sessions s).id ≠ 0 := (σ.id_setRx s s rx).trans_ne hid
    have hk' : (σ.stored s rx data).Known := hk.setRx s rx
    have hdrained : Drained env s (σ.stored s rx data)
        (drain env s (rx.readable + 1) [] (σ.stored s rx data)) := by
      apply drain_drained _ _ hid' hk'
      rw [Server.stored, Server.sessions_emit, σ.rx_setRx, rx.content_length]
      exact Nat.lt_succ_self _
    exact .inr ⟨rx, data, .inr hdrained⟩

theorem Books.stored (hb : Books max σ) (s : ℕ) (rx : RingBuffer) (data : List UInt8) :
    Books max (σ.stored s rx data) := by
  have hring : Books max (σ.setRx s rx) := hb.setQuiet rfl rfl rfl
  exact hring.emit _

theorem Server.id_stored (σ : Server) (s t : ℕ) (rx : RingBuffer) (data : List UInt8) :
    ((σ.stored s rx data).sessions t).id = (σ.sessions t).id := σ.id_setRx s t rx

theorem mailed_setRx (σ : Server) (s : ℕ) (rx : RingBuffer) : Mailed nothing σ (σ.setRx s rx) :=
  mailed_quiet rfl rfl rfl

theorem mailed_stored (σ : Server) (s : ℕ) (rx : RingBuffer) (data : List UInt8) :
    Mailed nothing σ (σ.stored s rx data) :=
  (mailed_setRx σ s rx).before (mailed_emit _ rfl rfl)

end IocpChat
