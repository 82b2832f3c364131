import IocpChat.Proofs.Stream

/-! The loop of `RecvCompletion` takes at least a header out of the ring in every round,
and what it waits with is shorter than the largest packet; so the ring has room for the
next receive, and every packet that may be announced fits. -/

namespace IocpChat

open Framed
open Runs (Exec)

variable {env : Env} {s k max : ℕ} {σ σ' : Server}

theorem waiting_of_more {bytes : List UInt8} (h : packetVerdict bytes = .more) :
    Waiting bytes ∧ bytes.length ≤ 32767 := by
  refine ⟨?_, Nat.le_of_lt_succ (length_lt_of_more h)⟩
  unfold Waiting
  rw [header_size]
  simp only [packetVerdict] at h
  split_ifs at h with h4 hbad hlen
  · exact .inl h4
  · exact .inr hlen

theorem four_le_of_frame {bytes : List UInt8} {n : ℕ} (h : packetVerdict bytes = .frame n) :
    4 ≤ n := by
  simp only [packetVerdict] at h
  split_ifs at h
  simp only [Verdict.frame.injEq] at h
  omega

/-- The loop ends by itself, after as many packets as there are headers in the ring at most. -/
theorem drainEnd_spec (env : Env) {s : ℕ} (pkt : List UInt8) {σ : Server} (hid : (σ.sessions s).id ≠ 0)
    (hk : σ.Known) : ∃ n r τ, n ≤ (σ.sessions s).rx.readable / 4 ∧
      (∀ rounds, n < rounds → drainEnd env s rounds pkt σ = some (n, r, τ)) ∧
      (r = .needMore ∧ packetVerdict (τ.sessions s).rx.content = .more ∨
        r = .malformed ∧ packetVerdict (τ.sessions s).rx.content = .bad) := by
  induction hl : (σ.sessions s).rx.content.length using Nat.strong_induction_on
    generalizing σ pkt with
  | _ l ih =>
    have hpop := pop_spec (σ.sessions s).rx pkt
    have hsize := (σ.sessions s).rx.content_length
    cases hv : packetVerdict (σ.sessions s).rx.content with
    | more =>
      simp only [hv] at hpop
      refine ⟨0, .needMore, σ, Nat.zero_le _, ?_, .inl ⟨rfl, hv⟩⟩
      intro rounds hr
      obtain ⟨rounds, rfl⟩ := Nat.exists_eq_succ_of_ne_zero hr.ne'
      simp only [drainEnd, hpop, Server.setRx_self]
    | bad =>
      simp only [hv] at hpop
      refine ⟨0, .malformed, σ, Nat.zero_le _, ?_, .inr ⟨rfl, hv⟩⟩
      intro rounds hr
      obtain ⟨rounds, rfl⟩ := Nat.exists_eq_succ_of_ne_zero hr.ne'
      simp only [drainEnd, hpop, Server.setRx_self]
    | frame n =>
      simp only [hv] at hpop
      obtain ⟨rx, hpop, hcap, hrx⟩ := hpop
      have hpos := four_le_of_frame hv
      have hle : n ≤ (σ.sessions s).rx.content.length := packetFraming.frame_le hv
      have hleft : ((packetDone env s n rx σ).sessions s).rx = rx := packetDone_rx env n rx hid hk
      have hshort : rx.content.length + n = l := by rw [hrx, List.length_drop]; omega
      obtain ⟨m, r, τ, hm, hend, hr⟩ := ih rx.content.length (by omega)
        ((σ.sessions s).rx.content.take n) (packetDone_id env n rx hid hk)
        (packetDone_known env n rx hid hk) (by rw [hleft])
      refine ⟨m + 1, r, τ, ?_, ?_, hr⟩
      · have hreadable := rx.content_length
        rw [hleft, RingBuffer.readable] at hm
        rw [RingBuffer.readable]
        omega
      · intro rounds hr
        obtain ⟨rounds, rfl⟩ := Nat.exists_eq_succ_of_ne_zero (Nat.ne_zero_of_lt hr)
        have hrest := hend rounds (Nat.lt_of_succ_lt_succ hr)
        rw [packetDone] at hrest
        simp only [drainEnd, hpop, hrest, Option.map_some]

/-- What follows the loop, by how it ended. -/
theorem drain_of_end {rounds n : ℕ} {pkt : List UInt8} {r : PopResult} {τ : Server}
    (h : drainEnd env s rounds pkt σ = some (n, r, τ)) :
    drain env s rounds pkt σ =
      if r = .needMore then postRecv env s τ
      else closeSession s ((τ.emit (.log .warn (ascii "Malformed packet: id=" ++
        decimal (τ.sessions s).id))).emit (.malformed s (τ.sessions s).id)) := by
  induction rounds generalizing pkt σ n with
  | zero => simp [drainEnd] at h
  | succ rounds ih =>
    simp only [drainEnd] at h
    simp only [drain]
    generalize pop (σ.sessions s).rx pkt = popped at h ⊢
    obtain ⟨r', rx, pkt'⟩ := popped
    cases r' with
    | ok =>
      obtain ⟨⟨m, r', τ'⟩, hend, heq⟩ := Option.map_eq_some_iff.mp h
      obtain ⟨-, rfl, rfl⟩ : m + 1 = n ∧ r' = r ∧ τ' = τ := by simpa using heq
      exact ih hend
    | needMore =>
      obtain ⟨-, rfl, rfl⟩ : 0 = n ∧ .needMore = r ∧ σ.setRx s rx = τ := by simpa using h
      rfl
    | malformed =>
      obtain ⟨-, rfl, rfl⟩ : 0 = n ∧ .malformed = r ∧ σ.setRx s rx = τ := by simpa using h
      rw [σ.id_setRx]
      rfl

/-! ### Room in the ring -/

/-- What a Session's ring holds, be the Session open or closed, with a receive behind it. -/
def Roomy (σ : Server) : Prop := ∀ s, (σ.sessions s).rx.content.length ≤ 32767 + bufferSize

/-- A receive leaves less than a packet in the ring of its Session, or closes it. -/
theorem Roomy.recv (hr : Roomy σ) (hp : Parsed σ) (hb : Books max σ) {i : ℕ} {op : RecvOp}
    {data : List UInt8} (hop : σ.recvs[i]? = some op) (hd : op.data = some data) (hne : data ≠ [])
    (hrecv : recvCompletion env op.sess data.length (σ.dequeueRecv i) = some σ') : Roomy σ' := by
  intro t
  have hdeq := hp.passive (dequeueRecv_passive σ i)
  have hlen := hp.chunks op (List.mem_of_getElem? hop) data hd
  have ho : (σ.dequeueRecv i).Open op.sess := hp.open_of_recv hb hne hrecv
  obtain ⟨rx, υ, hcap, hrx, hυ, hdrained⟩ := recvCompletion_drained env (hb.dequeueRecv i)
    hdeq ho (List.length_pos_iff.mpr hne) hlen
  obtain rfl := Option.some.inj (hυ.symm.trans hrecv)
  have hdel := hdrained.delivers ((Server.id_setRx ..).trans_ne ho.2)
    ((hb.dequeueRecv i).grounded.known.setRx _ rx)
  by_cases ht : t = op.sess
  · subst ht
    have hleft : (((σ.dequeueRecv i).setRx op.sess rx).sessions op.sess).rx = rx :=
      Server.rx_setRx ..
    have hbound := (waiting_of_more (hdeq.verdict ho)).2
    have hrest := rest_length_le rx.content
    rw [hrx, List.length_append, Server.readMem_length] at hrest
    rw [hdel.content, Server.sessions_emit, hleft, hrx]
    omega
  · rw [hdel.others t ht, Server.sessions_emit, Server.rx_setRx_of_ne _ rx ht]
    exact hr t

theorem Roomy.step (hr : Roomy σ) (hp : Parsed σ) (hb : Books max σ) {e : Event}
    (hstep : step env σ e = some σ') : Roomy σ' := by
  rcases step_passive hb hstep with hpass | ⟨τ, s, free, sock, hpre, hpost⟩ |
    ⟨i, op, data, -, hop, hd, hne, hrecv⟩
  · intro t
    rw [hpass.rx]
    exact hr t
  · intro t
    rw [hpost.rx, sessions_connect]
    split_ifs
    · exact Nat.zero_le _
    · rw [hpre.rx]
      exact hr t
  · exact hr.recv hp hb hop hd hne hrecv

theorem roomy_run {maxSessions n fuel : ℕ} {σ₀ : Server} {ok : Server → Event → Prop}
    {es : List Event} (hstart : start env maxSessions n fuel = some σ₀)
    (h : Exec (step env) ok σ₀ es σ) : Roomy σ := by
  have hrun : Parsed σ ∧ Roomy σ := by
    refine invariant_run (P := fun σ => Parsed σ ∧ Roomy σ) hstart (fun acc socks => ?_) ?_ h
    · exact ⟨(parsed_new maxSessions).passive (side_passive _ acc socks), fun s => Nat.zero_le _⟩
    · exact fun σ e σ' hb hpr _ hstep => ⟨hpr.1.step hb hstep, hpr.2.step hpr.1 hb hstep⟩
  exact hrun.2

theorem Roomy.append_all (hr : Roomy σ) (hp : Parsed σ) (s : ℕ) {data : List UInt8}
    (hlen : data.length ≤ bufferSize) :
    ((σ.sessions s).rx.append data data.length).1 = data.length := by
  have hroom := hr s
  have hcap := hp.cap s
  rw [((σ.sessions s).rx.append_spec (le_refl data.length)).1]
  rw [RingBuffer.content_length] at hroom
  simp only [bufferSize] at hroom hlen
  omega

/-! ### Every packet can be completed -/

/-- What comes before the end of a frame announces it at most. -/
theorem more_of_short {xs ys : List UInt8} (hframe : packetVerdict (xs ++ ys) = .frame (xs ++ ys).length)
    (hys : ys ≠ []) : packetVerdict xs = .more := by
  have hpos := List.length_pos_iff.mpr hys
  cases hv : packetVerdict xs with
  | more => rfl
  | bad =>
    have hbad : packetVerdict (xs ++ ys) = .bad := packetFraming.bad_stable hv ys
    exact absurd (hframe.symm.trans hbad) (by simp)
  | frame n =>
    have hle : n ≤ xs.length := packetFraming.frame_le hv
    have hstable : packetVerdict (xs ++ ys) = .frame n := packetFraming.frame_stable hv ys
    have hn : (xs ++ ys).length = n := by simpa using hframe.symm.trans hstable
    rw [List.length_append] at hn
    omega

theorem fill_recv (hp : Parsed σ) (hb : Books max σ) {i : ℕ} (hready : Ready σ s i) {c : List UInt8}
    (hpos : 1 ≤ c.length) (hlen : c.length ≤ bufferSize) :
    ∃ (rx : RingBuffer) (τ σ' : Server), rx.content = (σ.sessions s).rx.content ++ c ∧
      (τ.sessions s).rx = rx ∧ (τ.sessions s).id = (σ.sessions s).id ∧ τ.Open s ∧
      Drained env s τ σ' ∧ Exec (step env) (fun _ _ => True) σ [.fill i c, .recv i] σ' ∧
      σ'.stream s (σ.sessions s).id = σ.stream s (σ.sessions s).id ++ c := by
  obtain ⟨ho, k, hop⟩ := hready
  obtain ⟨b, hbuf⟩ := Option.ne_none_iff_exists'.mp (hb.open_buf s ho)
  set op : RecvOp := ⟨s, k, (σ.sessions s).rxBuf, none⟩ with hopdef
  have hopbuf : op.buf = some b := hbuf
  have hlt := (List.getElem?_eq_some_iff.mp hop).1
  have hfill : step env σ (.fill i c) = some (σ.fill i op c) := by
    simp [step, hop, hopdef, hlen]
  have hfilled : (σ.fill i op c).recvs[i]? = some { op with data := some c } := by
    rw [Server.fill, List.getElem?_set_self hlt]
  have hpass := (fill_passive σ i op hlen).trans (dequeueRecv_passive _ i)
  have hbooks : Books max ((σ.fill i op c).dequeueRecv i) :=
    (hb.move (.fill σ i op c hop rfl hlen : Move .calm (fun _ _ => True) σ _)).dequeueRecv i
  have hread : ((σ.fill i op c).dequeueRecv i).readMem (σ.sessions s).rxBuf c.length = c := by
    rw [hbuf]
    exact Server.readMem_fill (i := i) hopbuf c
  obtain ⟨rx, σ', hcap, hrx, hrecv, hdrained⟩ := recvCompletion_drained env hbooks
    (hp.passive hpass) (s := s) (by exact ho) hpos hlen
  have hdel := hdrained.delivers ((Server.id_setRx ..).trans_ne ho.2)
    (hbooks.grounded.known.setRx _ rx)
  have hstep : step env (σ.fill i op c) (.recv i) = some σ' := (step_recv hfilled rfl).trans hrecv
  set τ := (((σ.fill i op c).dequeueRecv i).setRx s rx).emit (.received s (σ.sessions s).id
    (((σ.fill i op c).dequeueRecv i).readMem (σ.sessions s).rxBuf c.length))
  have hopen : τ.Open s := (Server.open_setRx _ s s rx).mpr ho
  refine ⟨rx, τ, σ', hrx.trans (congrArg _ hread), Server.rx_setRx .., Server.id_setRx .., hopen, hdrained,
    .cons trivial hfill (.cons trivial hstep (.nil _)), ?_⟩
  · rw [hdel.stream_received, if_pos ⟨rfl, rfl⟩, hpass.stream]
    exact congrArg _ hread

theorem fill_recv_more (hp : Parsed σ) (hb : Books max σ) {i : ℕ} (hready : Ready σ s i)
    {c : List UInt8} (hpos : 1 ≤ c.length) (hlen : c.length ≤ bufferSize)
    (hok : ∀ τ, env.wsaRecvFails τ s = false)
    (hmore : packetVerdict ((σ.sessions s).rx.content ++ c) = .more) :
    ∃ j σ', Exec (step env) (fun _ _ => True) σ [.fill i c, .recv i] σ' ∧ Ready σ' s j ∧
      (σ'.sessions s).rx.content = (σ.sessions s).rx.content ++ c ∧
      (σ'.sessions s).id = (σ.sessions s).id ∧
      σ'.stream s (σ.sessions s).id = σ.stream s (σ.sessions s).id ++ c := by
  obtain ⟨rx, τ, σ', hrx, hτ, hid, ho, hdrained, hrun, hstream⟩ := fill_recv hp hb hready hpos hlen
  have hv : packetVerdict (τ.sessions s).rx.content = .more := by rw [hτ, hrx, hmore]
  cases hdrained with
  | waits _ _ =>
    have hpost : postRecv env s τ = τ.recvPosted s := by
      simp [postRecv, ho.1, hok, Server.recvPosted, Server.emit]
    rw [hpost] at hrun hstream
    refine ⟨τ.recvs.length, _, hrun, ⟨ho, (τ.sessions s).id, ?_⟩, ?_, hid, hstream⟩
    · simp [Server.recvPosted]
    · rw [← hrx, ← hτ]
      rfl
  | stops _ text hbad => simp [hv] at hbad
  | packet _ _ n rx' hframe => simp [hv] at hframe

theorem parsed_exec {ok : Server → Event → Prop} {es : List Event} (hb : Books max σ) (hp : Parsed σ)
    (h : Exec (step env) ok σ es σ') : Books max σ' ∧ Parsed σ' :=
  h.invariant (P := fun σ => Books max σ ∧ Parsed σ)
    (fun _ _ _ hbp _ hstep => ⟨hbp.1.step hstep, hbp.2.step hbp.1 hstep⟩) ⟨hb, hp⟩

theorem Parsed.deliveries_append (hp : Parsed σ) (hp' : Parsed σ') (ho : σ.Open s) {c : List UInt8}
    (hstream : σ'.stream s (σ.sessions s).id = σ.stream s (σ.sessions s).id ++ c) :
    σ'.deliveries s (σ.sessions s).id =
      σ.deliveries s (σ.sessions s).id ++ reference ((σ.sessions s).rx.content ++ c) := by
  obtain ⟨hgood, hrest⟩ := hp.waiting s ho
  rw [hp'.delivered, hstream, reference_append _ _ hgood, hrest, ← hp.delivered]

/-- A packet of any legal size arrives whole, however it is cut into receives. -/
theorem packet_arrives {p : List UInt8} (hpacket : packetVerdict p = .frame p.length)
    (hok : ∀ τ, env.wsaRecvFails τ s = false) (cuts : List (List UInt8))
    (hcuts : ∀ c ∈ cuts, 1 ≤ c.length ∧ c.length ≤ bufferSize) {i : ℕ} (hp : Parsed σ)
    (hb : Books max σ) (hready : Ready σ s i)
    (hsplit : (σ.sessions s).rx.content ++ cuts.flatten = p) :
    ∃ es σ', Exec (step env) (fun _ _ => True) σ es σ' ∧ es.filterMap Event.filled = cuts ∧
      σ'.deliveries s (σ.sessions s).id = σ.deliveries s (σ.sessions s).id ++ [.packet p] := by
  induction cuts generalizing σ i with
  | nil =>
    have hmore := hp.verdict hready.opened
    rw [List.flatten_nil, List.append_nil] at hsplit
    rw [hsplit, hpacket] at hmore
    contradiction
  | cons c cs ih =>
    obtain ⟨hpos, hlen⟩ := hcuts c (by simp)
    rw [List.flatten_cons, ← List.append_assoc] at hsplit
    cases cs with
    | nil =>
      -- the last piece completes the packet
      rw [List.flatten_nil, List.append_nil] at hsplit
      obtain ⟨-, -, σ', -, -, -, -, -, hrun, hstream⟩ := fill_recv hp hb hready hpos hlen
      have hnil : packetVerdict [] = .more := rfl
      have hdelivered := reference_packet hpacket []
      rw [List.append_nil, reference_more hnil] at hdelivered
      refine ⟨_, σ', hrun, rfl, ?_⟩
      rw [hp.deliveries_append (parsed_exec hb hp hrun).2 hready.opened hstream, hsplit, hdelivered]
    | cons d ds =>
      have hd := (hcuts d (by simp)).1
      have hbehind : (d :: ds).flatten ≠ [] := by
        rw [List.flatten_cons, ← List.length_pos_iff, List.length_append]
        omega
      have hmore : packetVerdict ((σ.sessions s).rx.content ++ c) = .more := by
        rw [← hsplit] at hpacket
        exact more_of_short hpacket hbehind
      obtain ⟨j, τ, hrun, hready', hcontent, hid, hstream⟩ :=
        fill_recv_more hp hb hready hpos hlen hok hmore
      obtain ⟨hb', hp'⟩ := parsed_exec hb hp hrun
      obtain ⟨es, σ', hrun', hcut, hdelivered⟩ := ih (fun c hc => hcuts c (by simp [hc])) hp' hb'
        hready' (by rw [hcontent, hsplit])
      refine ⟨_, σ', hrun.append hrun', by rw [List.filterMap_append, hcut]; rfl, ?_⟩
      rw [← hid, hdelivered, hid, hp.deliveries_append hp' hready.opened hstream,
        reference_more hmore, List.append_nil]

theorem recv_ends (env : Env) (hp : Parsed σ) (hb : Books max σ) {i : ℕ} {op : RecvOp}
    {data : List UInt8} (hop : σ.recvs[i]? = some op) (hd : op.data = some data) (hne : data ≠ [])
    (ho : σ.Open op.sess) (hlen : data.length ≤ bufferSize) :
    ∃ τ m r υ, (τ.sessions op.sess).rx.content = (σ.sessions op.sess).rx.content ++
        σ.readMem (σ.sessions op.sess).rxBuf data.length ∧
      m ≤ (τ.sessions op.sess).rx.readable / 4 ∧
      (∀ rounds, m < rounds → drainEnd env op.sess rounds [] τ = some (m, r, υ) ∧
        step env σ (.recv i) = some (drain env op.sess rounds [] τ)) ∧
      (r = .needMore → Waiting (υ.sessions op.sess).rx.content ∧
        (υ.sessions op.sess).rx.readable ≤ 32767) := by
  obtain ⟨rx, hcap, hrx, hrecv⟩ := recvCompletion_eq env (hb.dequeueRecv i)
    (hp.passive (dequeueRecv_passive σ i)) (s := op.sess) (by exact ho)
    (List.length_pos_iff.mpr hne) hlen
  set τ := ((σ.dequeueRecv i).setRx op.sess rx).emit (.received op.sess
    ((σ.dequeueRecv i).sessions op.sess).id ((σ.dequeueRecv i).readMem
      ((σ.dequeueRecv i).sessions op.sess).rxBuf data.length))
  have hτ : (τ.sessions op.sess).rx = rx := Server.rx_setRx ..
  have hid : (τ.sessions op.sess).id ≠ 0 := (Server.id_setRx ..).trans_ne ho.2
  obtain ⟨m, r, υ, hm, hend, hr⟩ :=
    drainEnd_spec env [] hid ((hb.dequeueRecv i).grounded.known.setRx op.sess rx)
  have hstep : step env σ (.recv i) = some (drain env op.sess (rx.readable + 1) [] τ) :=
    (step_recv hop hd).trans hrecv
  refine ⟨τ, m, r, υ, ?_, hm, ?_, ?_⟩
  · rw [hτ]
    exact hrx
  · intro rounds hrounds
    have hmin : m < rx.readable + 1 := by
      rw [hτ] at hm
      omega
    rw [hstep, drain_of_end (hend _ hmin), drain_of_end (hend _ hrounds)]
    exact ⟨hend rounds hrounds, rfl⟩
  · intro hmore
    obtain ⟨-, hv⟩ | ⟨hbad, -⟩ := hr
    · have hwait := waiting_of_more hv
      rw [RingBuffer.content_length] at hwait
      exact hwait
    · rw [hmore] at hbad
      contradiction

/-- The ring of an open Session holds less than a packet; a receive fits into every
ring, the loop behind it ends after at most a quarter of the readable bytes, and every
packet that may be announced can be completed. -/
theorem receive_fits {maxSessions n fuel : ℕ} {σ₀ σ : Server} {es : List Event}
    (hstart : start env maxSessions n fuel = some σ₀)
    (h : Exec (step env) (fun _ _ => True) σ₀ es σ) :
    (∀ s, σ.Open s → Waiting (σ.sessions s).rx.content ∧ (σ.sessions s).rx.readable ≤ 32767) ∧
      (∀ s data, data.length ≤ bufferSize →
        ((σ.sessions s).rx.append data data.length).1 = data.length) ∧
      (∀ i op data, σ.recvs[i]? = some op → op.data = some data → data ≠ [] → σ.Open op.sess →
        ∃ τ m r υ, (τ.sessions op.sess).rx.content = (σ.sessions op.sess).rx.content ++
            σ.readMem (σ.sessions op.sess).rxBuf data.length ∧
          m ≤ (τ.sessions op.sess).rx.readable / 4 ∧
          (∀ rounds, m < rounds → drainEnd env op.sess rounds [] τ = some (m, r, υ) ∧
            step env σ (.recv i) = some (drain env op.sess rounds [] τ)) ∧
          (r = .needMore → Waiting (υ.sessions op.sess).rx.content ∧
            (υ.sessions op.sess).rx.readable ≤ 32767)) ∧
      (∀ p s i cuts, 4 ≤ p.length → p.length ≤ kMaxPacket →
        (PacketHeader.ofBytes p).size.toNat = p.length → (∀ τ, env.wsaRecvFails τ s = false) →
        Ready σ s i → (∀ c ∈ cuts, 1 ≤ c.length ∧ c.length ≤ bufferSize) →
        (σ.sessions s).rx.content ++ cuts.flatten = p →
        ∃ fs σ', Exec (step env) (fun _ _ => True) σ fs σ' ∧ fs.filterMap Event.filled = cuts ∧
          σ'.deliveries s (σ.sessions s).id =
            σ.deliveries s (σ.sessions s).id ++ [.packet p]) := by
  have hp := parsed_run hstart h
  have hb := books_run hstart h
  have hr := roomy_run hstart h
  refine ⟨?_, fun s data => hr.append_all hp s, ?_, ?_⟩
  · intro s ho
    have hwait := waiting_of_more (hp.verdict ho)
    rw [RingBuffer.content_length] at hwait
    exact hwait
  · intro i op data hop hd hne ho
    have hlen := hp.chunks op (List.mem_of_getElem? hop) data hd
    exact recv_ends env hp hb hop hd hne ho hlen
  · intro p s i cuts hmin hmax hsize hok hready hcuts hsplit
    have hpacket := packetVerdict_whole hmin hmax hsize
    exact packet_arrives hpacket hok cuts hcuts hp hb hready hsplit

/-- Half of a header has arrived. -/
def halfHeader : List Event := [.accept 0 1, .fill 0 [4, 0], .recv 0]

theorem receive_fits_halfHeader :
    ∃ σ : Server, (σ.sessions 0).rx.readable ≤ 32767 ∧ ∃ fs σ',
      Exec (step .calm) (fun _ _ => True) σ fs σ' ∧ fs.filterMap Event.filled = [[13], [0]] ∧
        σ'.deliveries 0 1 = [.packet [4, 0, 13, 0]] := by
  obtain ⟨σ₀, σ, hstart, hrun, hclosing, hid, hop, hrx, hnone⟩ : ∃ σ₀ σ, start .calm 1 1 1 = some σ₀ ∧
      Exec (step .calm) (fun _ _ => True) σ₀ halfHeader σ ∧ (σ.sessions 0).closing = false ∧
        (σ.sessions 0).id = 1 ∧ σ.recvs[0]? = some ⟨0, 1, (σ.sessions 0).rxBuf, none⟩ ∧
        (σ.sessions 0).rx.content = [4, 0] ∧ σ.deliveries 0 1 = [] := exists_run (by decide +kernel)
  have hopen : σ.Open 0 := ⟨hclosing, by simp [hid]⟩
  obtain ⟨hwait, -, -, hpacket⟩ := receive_fits hstart hrun
  obtain ⟨fs, σ', hrun', hcuts, hdelivered⟩ := hpacket [4, 0, 13, 0] 0 0 [[13], [0]] (by decide)
    (by decide) (by decide) (fun _ => rfl) ⟨hopen, 1, hop⟩ (by decide) (by rw [hrx]; rfl)
  rw [hid, hnone] at hdelivered
  exact ⟨σ, (hwait 0 hopen).2, fs, σ', hrun', hcuts, hdelivered⟩

end IocpChat
