import IocpChat.Proofs.Silence

/-! Nothing is done for a connection after it was closed, and what the others are told
because of a client does not depend on the cutting of its stream, as long as an `Exit`
has nothing behind it that the loop of `RecvCompletion` would go on with. -/

namespace IocpChat

open Framed
open Runs (Exec)

variable {env : Env} {s k max : ℕ} {σ σ' : Server}

/-- In every stream an `Exit` is last, and its session is closed. -/
structure Exits (σ : Server) : Prop where
  last : ∀ s k, exitLast (σ.stream s k) = true
  gone : ∀ s, σ.Open s → ∀ packet ∈ (packets (σ.stream s (σ.sessions s).id)).frames,
    isExit packet = false

theorem exits_new (maxSessions : ℕ) : Exits (.new maxSessions) :=
  ⟨fun _ _ => rfl, fun _ ho => absurd rfl ho.2⟩

theorem Exits.passive (h : Exits σ) (hpass : Passive σ σ') : Exits σ' where
  last s k := by rw [hpass.stream]; exact h.last s k
  gone s ho := by rw [hpass.id, hpass.stream]; exact h.gone s (hpass.opens s ho)

theorem Exits.connect (h : Exits σ) (hp : Parsed σ) (s : ℕ) (free : List ℕ) (sock : Option ℕ) :
    Exits (connect s free sock σ) := by
  have hses (t : ℕ) := sessions_connect s t free sock σ
  have hstream (t j : ℕ) := stream_connect s free sock σ t j
  refine ⟨fun t j => by rw [hstream]; exact h.last t j, fun t ho => ?_⟩
  rw [hstream]
  by_cases ht : t = s
  · rw [hses, if_pos ht, show (σ.connected s sock).id = σ.sessionIdGen from rfl,
      hp.fresh t _ le_rfl]
    exact fun packet hmem => absurd hmem List.not_mem_nil
  · rw [Server.Open, hses, if_neg ht] at ho
    rw [hses, if_neg ht]
    exact h.gone t ho

theorem upToExit_append {frames : List (List UInt8)}
    (h : ∀ packet ∈ frames, isExit packet = false) (later : List (List UInt8)) :
    upToExit (frames ++ later) = frames ++ upToExit later := by
  induction frames with
  | nil => rfl
  | cons packet frames ih =>
    simp only [List.forall_mem_cons] at h
    simp [upToExit, h.1, ih h.2]

theorem exitLast_append {xs ys : List UInt8} (hb : (packets xs).bad = false)
    (h : ∀ packet ∈ (packets xs).frames, isExit packet = false) :
    exitLast (xs ++ ys) = exitLast ((packets xs).rest ++ ys) := by
  have hany : (packets xs).frames.any isExit = false := by simpa using h
  simp only [exitLast, packets_append xs ys hb, Parse.after, upToExit_append h,
    List.append_cancel_left_eq, List.any_append, hany, Bool.false_or]

/-- What the completion of a receive with bytes does. -/
theorem received_hushed (henv : FailsWaiting env) {n : ℕ} (hb : Books max σ) (hp : Parsed σ)
    (h : Hushed σ) (hx : Exits σ) (ho : σ.Open s) (hpos : 0 < n) (hn : n ≤ bufferSize)
    (hlast : exitLast ((σ.sessions s).rx.content ++ σ.readMem (σ.sessions s).rxBuf n) = true)
    (hrecv : recvCompletion env s n σ = some σ') :
    Hushed σ' ∧ Exits σ' ∧
      ((∃ packet ∈ (packets (σ'.stream s (σ.sessions s).id)).frames, isExit packet = true) →
        σ'.trace.getLast? = some (.closed s (σ.sessions s).id)) := by
  obtain ⟨rx, υ, hcap, hrx, hυ, hdrained⟩ := recvCompletion_drained env hb hp ho hpos hn
  obtain rfl : υ = σ' := Option.some.inj (hυ.symm.trans hrecv)
  set data := σ.readMem (σ.sessions s).rxBuf n
  set k := (σ.sessions s).id
  set τ := (σ.setRx s rx).emit (.received s k data)
  have hids (t : ℕ) : (τ.sessions t).id = (σ.sessions t).id := σ.id_setRx s t rx
  have hid : (τ.sessions s).id ≠ 0 := (hids s).trans_ne ho.2
  have hk : τ.Known := hb.grounded.known.setRx s rx
  have ho' : (σ.setRx s rx).Open s := (σ.open_setRx s s rx).mpr ho
  have hcontent : (τ.sessions s).rx.content = (σ.sessions s).rx.content ++ data := by
    rw [← hrx]
    exact congrArg RingBuffer.content (σ.rx_setRx s rx)
  have hring : Hushed (σ.setRx s rx) := h.onward (onward_setRx σ s rx) rfl
  have hτ : Hushed τ := hring.emitOpen ho' (hids s) rfl fun _ _ hc => of_decide_eq_true hc
  have hdelivers := hdrained.delivers hid hk
  obtain ⟨hgood, hrest⟩ := hp.waiting s ho
  have hnone := hx.gone s ho
  have hstream (t j : ℕ) := hdelivers.stream_received t j
  have hown : υ.stream s k = σ.stream s k ++ data := by rw [hstream, if_pos ⟨rfl, rfl⟩]
  -- an `Exit` of this stream is in the ring
  have hfound (packet : List UInt8) (hmem : packet ∈ (packets (υ.stream s k)).frames)
      (he : isExit packet = true) :
      ∃ packet ∈ (packets (τ.sessions s).rx.content).frames, isExit packet = true := by
    rw [hown, packets_append _ _ hgood, hrest] at hmem
    rcases List.mem_append.mp hmem with hmem | hmem
    · rw [hnone packet hmem] at he
      contradiction
    · exact ⟨packet, hcontent ▸ hmem, he⟩
  refine ⟨hdrained.hushed henv hid hk hτ (by rwa [hcontent]) (.inl ho'), ⟨fun t j => ?_,
    fun t hopen packet hmem => ?_⟩, fun ⟨packet, hmem, he⟩ => ?_⟩
  · rw [hstream]
    split_ifs with htj
    · rw [htj.1, htj.2, exitLast_append hgood hnone, hrest]
      exact hlast
    · rw [List.append_nil]
      exact hx.last t j
  · rw [hdelivers.id, hids] at hmem
    by_cases ht : t = s
    · subst ht
      by_contra he
      rw [Bool.not_eq_false] at he
      exact hdrained.not_open hid hk (hfound packet hmem he) hopen
    · rw [hstream, if_neg (fun hts => ht hts.1), List.append_nil] at hmem
      have hwas : σ.Open t := (onward_setRx σ s rx).opens t (hdelivers.opens t hopen)
      exact hx.gone t hwas packet hmem
  · have hend : υ.trace.getLast? = some (.closed s (τ.sessions s).id) :=
      hdrained.exit_last henv hk ho' (by rwa [hcontent]) (hfound packet hmem he)
    rw [hend, hids]

theorem Hushed.accept (h : Hushed σ) {fuel : ℕ} {op : AcceptOp} (hg : 0 < σ.sessionIdGen)
    (haccept : acceptCompletion env fuel op σ = some σ') : Hushed σ' := by
  have hside (τ : Server) (hτ : Hushed τ) (acc : AcceptSide) (socks : List ℕ) :
      Hushed (τ.side acc socks) := hτ.onward (side_passive τ acc socks).toOnward rfl
  rcases acceptCompletion_cases haccept with ⟨-, acc, socks, rfl⟩ |
    ⟨s, free, acc, socks, acc', socks', hf, rfl⟩
  · exact hside σ h acc socks
  · have hid := connect_id_ne hg s free op.acceptSock
    have hpost : Hushed (postRecv env s (IocpChat.connect s free op.acceptSock σ)) :=
      (h.connect s free op.acceptSock).postsRecv hid
    have hgreet : Acts env none (fun e => e.isLog = true) (Server.side _ acc socks) _ :=
      onClientConnected_acts ((postRecv_id env s s _).trans_ne hid) fun _ _ => rfl
    exact hside _ ((hside _ hpost acc socks).acts hgreet) acc' socks'

theorem Hushed.closeAny (h : Hushed σ) (hid : (σ.sessions s).id ≠ 0) :
    Hushed (closeSession s σ) := by
  by_cases hc : (σ.sessions s).closing = true
  · rw [closeSession_of_closing hc]
    exact h
  · exact h.close (Server.open_of_not_closing hc hid)

/-- The completion of a receive with bytes that meets the condition. -/
theorem recv_hushed (henv : FailsWaiting env) (hb : Books max σ) (hp : Parsed σ) (h : Hushed σ)
    (hx : Exits σ) {i : ℕ} {op : RecvOp} {data : List UInt8} (hok : ClosesLast σ (.recv i))
    (hop : σ.recvs[i]? = some op) (hd : op.data = some data) (hne : data ≠ [])
    (hrecv : recvCompletion env op.sess data.length (σ.dequeueRecv i) = some σ') :
    Hushed σ' ∧ Exits σ' ∧
      ((∃ packet ∈ (packets (σ'.stream op.sess (σ.sessions op.sess).id)).frames,
          isExit packet = true) →
        σ'.trace.getLast? = some (.closed op.sess (σ.sessions op.sess).id)) := by
  have hpass := dequeueRecv_passive σ i
  have ho : (σ.dequeueRecv i).Open op.sess := hp.open_of_recv hb hne hrecv
  have hdeq : Hushed (σ.dequeueRecv i) := h.onward hpass.toOnward rfl
  have hlen := hp.chunks op (List.mem_of_getElem? hop) data hd
  have hlast := ((hok op hop data hd).resolve_left hne).2
  exact received_hushed (σ := σ.dequeueRecv i) henv (hb.dequeueRecv i) (hp.passive hpass) hdeq
    (hx.passive hpass) ho (List.length_pos_iff.mpr hne) hlen hlast hrecv

theorem Exits.step (hx : Exits σ) (henv : FailsWaiting env) (hb : Books max σ) (hp : Parsed σ)
    (h : Hushed σ) {e : Event} (hok : ClosesLast σ e) (hstep : step env σ e = some σ') :
    Exits σ' := by
  rcases step_passive hb hstep with hpass | ⟨τ, s, free, sock, hpre, hpost⟩ |
    ⟨i, op, data, rfl, hop, hd, hne, hrecv⟩
  · exact hx.passive hpass
  · exact ((hx.passive hpre).connect (hp.passive hpre) s free sock).passive hpost
  · exact (recv_hushed henv hb hp h hx hok hop hd hne hrecv).2.1

theorem Hushed.step (h : Hushed σ) (henv : FailsWaiting env) (hb : Books max σ) (hp : Parsed σ)
    (hx : Exits σ) {e : Event} (hok : ClosesLast σ e) (hstep : step env σ e = some σ') :
    Hushed σ' := by
  cases step_cases hstep with
  | @accept i fuel op _ hop haccept =>
    have hside : Hushed (σ.dequeueAccept i) :=
      h.onward (side_passive σ _ σ.closedSocks).toOnward rfl
    exact hside.accept hb.grounded.idGen haccept
  | fill hop hd hlen => exact h.onward (fill_passive σ _ _ hlen).toOnward rfl
  | @recv i op data _ hop hd hrecv =>
    by_cases hnil : data = []
    · subst hnil
      have hdeq : Hushed (σ.dequeueRecv i) := h.onward (dequeueRecv_passive σ i).toOnward rfl
      have hclose := Option.some.inj ((recvCompletion_zero env op.sess (σ.dequeueRecv i)).symm.trans hrecv)
      exact hclose ▸ hdeq.closeAny (hb.recvs op (List.mem_of_getElem? hop))
    · exact (recv_hushed henv hb hp h hx hok hop hd hnil hrecv).1
  | @send i op hop =>
    have hdeq : Hushed (σ.dequeueSend i) := h.onward (dequeueSend_passive σ i).toOnward rfl
    have hacts : Acts env none (fun e => e.isLog = true) (σ.dequeueSend i) _ :=
      postSend_acts (hb.sends op (List.mem_of_getElem? hop))
    exact hdeq.acts hacts
  | enqueueSend hid => exact h.acts (enqueueSend_acts hid _ : Acts env none _ _ _)
  | broadcast => exact h.acts (broadcast_acts hb.grounded.known _ _ : Acts env none _ _ _)
  | closeSession hid => exact h.closeAny hid

theorem hushed_run {maxSessions n fuel : ℕ} {σ₀ : Server} {es : List Event}
    (hstart : start env maxSessions n fuel = some σ₀) (henv : FailsWaiting env)
    (h : Exec (step env) ClosesLast σ₀ es σ) : Hushed σ ∧ Exits σ := by
  have hrun : Parsed σ ∧ Hushed σ ∧ Exits σ := by
    refine invariant_run (P := fun σ => Parsed σ ∧ Hushed σ ∧ Exits σ) hstart
      (fun acc socks => ?_) ?_ h
    · have hside := side_passive (Server.new maxSessions) acc socks
      exact ⟨(parsed_new maxSessions).passive hside,
        (hushed_new maxSessions).onward hside.toOnward rfl, (exits_new maxSessions).passive hside⟩
    · intro σ e σ' hb ⟨hp, hh, hx⟩ hok hstep
      exact ⟨hp.step hb hstep, hh.step henv hb hp hx hok hstep, hx.step henv hb hp hh hok hstep⟩
  exact hrun.2

/-! ### What the others are told -/

theorem upToExit_mono {frames frames' : List (List UInt8)} (h : frames <+: frames') :
    upToExit frames <+: upToExit frames' := by
  obtain ⟨later, rfl⟩ := h
  induction frames with
  | nil => exact List.nil_prefix
  | cons packet frames ih =>
    rw [List.cons_append, upToExit, upToExit]
    split_ifs
    · exact List.prefix_refl _
    · exact (List.prefix_cons_inj packet).mpr ih

/-- What comes behind an `Exit` does not count. -/
theorem upToExit_of_exit {frames frames' : List (List UInt8)} (h : frames <+: frames')
    (hexit : ∃ packet ∈ frames, isExit packet = true) : upToExit frames' = upToExit frames := by
  obtain ⟨later, rfl⟩ := h
  induction frames with
  | nil => simp at hexit
  | cons packet frames ih =>
    rw [List.cons_append, upToExit, upToExit]
    split_ifs with he
    · rfl
    · rw [ih]
      obtain ⟨exit, hmem, hp⟩ := hexit
      rcases List.mem_cons.mp hmem with rfl | hmem
      · exact absurd hp he
      · exact ⟨exit, hmem, hp⟩

theorem frames_mono {xs ys : List UInt8} (h : xs <+: ys) :
    (packets xs).frames <+: (packets ys).frames := by
  obtain ⟨zs, rfl⟩ := h
  exact parse_append_frames packetFraming xs zs

theorem filterMap_reference (bytes : List UInt8) :
    (reference bytes).filterMap Delivery.announce = (packets bytes).frames.filterMap announce := by
  have hend : (if (packets bytes).bad then [Delivery.malformed] else []).filterMap
      Delivery.announce = [] := by
    split_ifs <;> rfl
  rw [reference, List.filterMap_append, hend, List.append_nil, List.filterMap_map]
  rfl

/-- The others were told what the reference parse of the stream announces. -/
theorem announced_eq (hp : Parsed σ) (h : Hushed σ) (hx : Exits σ) (s k : ℕ) :
    σ.announced s k = announcements (σ.stream s k) := by
  have hlast := hx.last s k
  simp only [exitLast, Bool.and_eq_true, decide_eq_true_eq] at hlast
  rw [h.told, hp.delivered, filterMap_reference, announcements, hlast.1]

theorem trace_closeSession_cases (s : ℕ) (σ : Server) :
    ∃ es, (closeSession s σ).trace = σ.trace ++ es ∧
      ∀ e ∈ es, e = .closed s (σ.sessions s).id := by
  cases hc : (σ.sessions s).closing with
  | true => exact ⟨[], by rw [closeSession_of_closing hc, List.append_nil], by simp⟩
  | false => exact ⟨[_], trace_closeSession hc, by simp⟩

theorem silent_after_close {maxSessions n fuel : ℕ} {σ₀ σ : Server} {es : List Event}
    (hstart : start env maxSessions n fuel = some σ₀) (henv : FailsWaiting env)
    (h : Exec (step env) ClosesLast σ₀ es σ) :
    SilentAfterClose σ ∧
      (∀ i op σ', σ.recvs[i]? = some op → Effect.closed op.sess op.conn ∈ σ.trace →
        ClosesLast σ (.recv i) → step env σ (.recv i) = some σ' →
          ∃ fs, σ'.trace = σ.trace ++ fs ∧
            ∀ e ∈ fs, e = .closed op.sess (σ.sessions op.sess).id) ∧
      ∀ e σ' s k, ClosesLast σ e → step env σ e = some σ' → ¬σ.Exited s k → σ'.Exited s k →
        σ'.trace.getLast? = some (.closed s k) := by
  have hp := parsed_run hstart h
  have hb := books_run hstart h
  obtain ⟨hh, hx⟩ := hushed_run hstart henv h
  refine ⟨⟨hh.order, fun s k bytes hpre => ?_, fun s k bytes hpre hdone => ?_⟩, ?_, ?_⟩
  · rw [announced_eq hp hh hx]
    exact (upToExit_mono (frames_mono hpre)).filterMap announce
  · rw [announced_eq hp hh hx]
    rcases hdone with rfl | hexit
    · rfl
    · rw [announcements, announcements, upToExit_of_exit (frames_mono hpre) hexit]
  · intro i op σ' hop hclosed hok hstep
    cases step_cases hstep with
    | @recv _ op' data _ hop' hd hrecv =>
      obtain rfl : op' = op := Option.some.inj (hop'.symm.trans hop)
      by_cases hne : data = []
      · subst hne
        have hclose := Option.some.inj ((recvCompletion_zero env op'.sess (σ.dequeueRecv i)).symm.trans hrecv)
        exact hclose ▸ trace_closeSession_cases op'.sess (σ.dequeueRecv i)
      · -- a receive with bytes was posted for the connection its open Session carries
        have hcarries := ((hok op' hop data hd).resolve_left hne).1
        have ho := hp.open_of_recv hb hne hrecv
        exact absurd (hcarries ▸ hclosed) (hh.live op'.sess ho)
  · intro e σ' s k hok hstep hnot hexit
    rcases step_passive hb hstep with hpass | ⟨τ, t, free, sock, hpre, hpost⟩ |
      ⟨i, op, data, rfl, hop, hd, hne, hrecv⟩
    · unfold Server.Exited at hnot hexit
      rw [hpass.stream] at hexit
      exact absurd hexit hnot
    · unfold Server.Exited at hnot hexit
      rw [hpost.stream, stream_connect, hpre.stream] at hexit
      exact absurd hexit hnot
    · have hdeq := hp.passive (dequeueRecv_passive σ i)
      have ho := hp.open_of_recv hb hne hrecv
      have hlen := hp.chunks op (List.mem_of_getElem? hop) data hd
      obtain ⟨υ, hυ, -, hstream⟩ :=
        hdeq.recv env (hb.dequeueRecv i) ho (List.length_pos_iff.mpr hne) hlen
      obtain rfl : υ = σ' := Option.some.inj (hυ.symm.trans hrecv)
      by_cases hsk : s = op.sess ∧ k = (σ.sessions op.sess).id
      · rw [hsk.1, hsk.2] at hexit ⊢
        exact (recv_hushed henv hb hp hh hx hok hop hd hne hrecv).2.2 hexit
      · have hsame : υ.stream s k = σ.stream s k :=
          (hstream s k).trans (by rw [if_neg (by exact hsk), List.append_nil]; rfl)
        unfold Server.Exited at hnot hexit
        rw [hsame] at hexit
        exact absurd hexit hnot

/-- An `Exit` packet without a nickname. -/
def exitBytes : List UInt8 := [36, 0, 2, 0] ++ List.replicate 32 0

/-- The bytes of a second `Exit` have begun to arrive with the first. -/
def exitOnce : List Event := [.accept 0 1, .fill 0 (exitBytes ++ [36, 0]), .recv 0]

theorem silent_after_close_exitOnce :
    ∃ σ : Server, ¬σ.Open 0 ∧ LastWord σ.trace ∧
      σ.announced 0 1 = announcements (exitBytes ++ exitBytes) := by
  obtain ⟨σ₀, σ, hstart, hrun, hclosing, hstream⟩ : ∃ σ₀ σ, start .calm 1 1 1 = some σ₀ ∧
      Exec (step .calm) ClosesLast σ₀ exitOnce σ ∧ (σ.sessions 0).closing = true ∧
        σ.stream 0 1 = exitBytes ++ [36, 0] := exists_run (by decide +kernel)
  have hcalm : FailsWaiting .calm := fun σ s hf => absurd hf (by simp [Env.calm])
  have hsilent := (silent_after_close hstart hcalm hrun).1
  have hexited : σ.Exited 0 1 := by
    rw [Server.Exited, hstream]
    exact ⟨exitBytes, by decide +kernel, by decide +kernel⟩
  have hprefix : σ.stream 0 1 <+: exitBytes ++ exitBytes := by
    rw [hstream]
    exact (List.prefix_append_right_inj _).mpr (by decide)
  exact ⟨σ, fun ho => by simp [ho.1] at hclosing, hsilent.order,
    hsilent.whole 0 1 _ hprefix (.inr hexited)⟩

theorem not_lastWord {trace : List Effect} {e : Effect} (hmem : Effect.closed s k ∈ trace)
    (hlast : trace.getLast? = some e) (hc : e.concerns s k = true) (hne : e ≠ .closed s k) :
    ¬LastWord trace := by
  intro h
  obtain ⟨pre, rfl⟩ := List.getLast?_eq_some_iff.mp hlast
  rcases List.mem_append.mp hmem with hmem | hmem
  · have hno := (List.pairwise_append.mp h).2.2 _ hmem e (List.mem_singleton_self e) s k rfl
    rw [hc] at hno
    contradiction
  · exact hne (List.mem_singleton.mp hmem).symm

/-- Both `Exit` packets arrive together. -/
def exitTwice : List Event := [.accept 0 1, .fill 0 (exitBytes ++ exitBytes), .recv 0]

theorem exit_handled_twice :
    ∃ (maxSessions n fuel : ℕ) (σ₀ σ : Server) (es : List Event),
      start .calm maxSessions n fuel = some σ₀ ∧
        Exec (step .calm) (fun _ _ => True) σ₀ es σ ∧ ¬LastWord σ.trace ∧
        σ.announced 0 1 ≠ announcements (σ.stream 0 1) := by
  obtain ⟨σ₀, σ, hstart, hrun, hmem, hlast, htwice⟩ :
      ∃ σ₀ σ, start .calm 1 1 1 = some σ₀ ∧
        Exec (step .calm) (fun _ _ => True) σ₀ exitTwice σ ∧ Effect.closed 0 1 ∈ σ.trace ∧
          σ.trace.getLast? = some (.broadcast 0 1 (exitNotice (PKExit.new.deserialize exitBytes))) ∧
          σ.announced 0 1 ≠ announcements (σ.stream 0 1) := exists_run (by decide +kernel)
  exact ⟨1, 1, 1, σ₀, σ, exitTwice, hstart, hrun, not_lastWord hmem hlast rfl (by simp), htwice⟩

end IocpChat
