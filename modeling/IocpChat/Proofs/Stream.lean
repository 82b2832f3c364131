import IocpChat.Proofs.Bookkeeping
import IocpChat.Spec.Stream

/-! What `RecvCompletion` passes to the packet handler is the reference parse of the
bytes received for the connection, however they were cut into receives. -/

namespace IocpChat

open Framed
open Runs (Exec)

variable {env : Env} {s k max : ℕ} {σ σ' : Server}

/-! ### The reference parse -/

theorem packets_append (xs ys : List UInt8) (h : (packets xs).bad = false) :
    packets (xs ++ ys) = (packets ((packets xs).rest ++ ys)).after (packets xs).frames := by
  unfold packets at h ⊢
  rw [parse_append, h]
  simp

theorem reference_append (xs ys : List UInt8) (h : (packets xs).bad = false) :
    reference (xs ++ ys) = reference xs ++ reference ((packets xs).rest ++ ys) := by
  simp [reference, packets_append xs ys h, Parse.after, h]

theorem reference_more {bytes : List UInt8} (h : packetVerdict bytes = .more) :
    reference bytes = [] := by
  simp [reference, packets, parse_more packetFraming h]

theorem reference_bad {bytes : List UInt8} (h : packetVerdict bytes = .bad) :
    reference bytes = [.malformed] := by
  simp [reference, packets, parse_bad packetFraming h]

theorem reference_frame {bytes : List UInt8} {n : ℕ} (h : packetVerdict bytes = .frame n) :
    reference bytes = .packet (bytes.take n) :: reference (bytes.drop n) := by
  unfold reference packets
  rw [parse_frame packetFraming h]
  rfl

theorem reference_packet {p : List UInt8} (hpacket : packetVerdict p = .frame p.length)
    (rest : List UInt8) : reference (p ++ rest) = .packet p :: reference rest := by
  unfold reference packets
  rw [parse_piece packetFraming hpacket]
  rfl

theorem rest_length_le (bytes : List UInt8) : (packets bytes).rest.length ≤ bytes.length := by
  have hflat := congrArg List.length (parse_flatten packetFraming bytes)
  rw [List.length_append] at hflat
  exact Nat.le_of_add_left_le hflat.le

/-- An incomplete packet is shorter than the largest one. -/
theorem length_lt_of_more {bytes : List UInt8} (h : packetVerdict bytes = .more) :
    bytes.length < 32768 := by
  simp only [packetVerdict] at h
  split_ifs at h <;> omega

/-! ### What leaves every stream alone -/

/-- The effects that belong to a stream. -/
def Effect.isData : Effect → Bool
  | .received .. | .packet .. | .malformed .. => true
  | _ => false

theorem Effect.chunk_of_not_isData {e : Effect} (h : e.isData = false) (s k : ℕ) :
    e.chunk s k = [] := by
  cases e <;> first | rfl | simp [Effect.isData] at h

theorem Effect.delivery_of_not_isData {e : Effect} (h : e.isData = false) (s k : ℕ) :
    e.delivery s k = none := by
  cases e <;> first | rfl | simp [Effect.isData] at h

/-- No Session changes its connection or opens again, and receives have buffer size. -/
structure Onward (σ σ' : Server) : Prop where
  id : ∀ t, (σ'.sessions t).id = (σ.sessions t).id
  idGen : σ'.sessionIdGen = σ.sessionIdGen
  opens : ∀ t, σ'.Open t → σ.Open t
  recvs : ∀ op ∈ σ'.recvs,
    op ∈ σ.recvs ∨ ∀ data, op.data = some data → data.length ≤ bufferSize

theorem Onward.refl (σ : Server) : Onward σ σ := ⟨fun _ => rfl, rfl, fun _ ho => ho, fun _ => .inl⟩

theorem Onward.trans {σ'' : Server} (h : Onward σ σ') (h' : Onward σ' σ'') : Onward σ σ'' where
  id t := (h'.id t).trans (h.id t)
  idGen := h'.idGen.trans h.idGen
  opens t ho := h.opens t (h'.opens t ho)
  recvs op hop := (h'.recvs op hop).elim (h.recvs op) .inr

/-- Nothing is read from a ring or stored in one. -/
structure Passive (σ σ' : Server) : Prop extends Onward σ σ' where
  rx : ∀ t, (σ'.sessions t).rx = (σ.sessions t).rx
  trace : ∃ es, σ'.trace = σ.trace ++ es ∧ ∀ e ∈ es, e.isData = false

theorem Passive.trans {σ'' : Server} (h : Passive σ σ') (h' : Passive σ' σ'') : Passive σ σ'' where
  toOnward := h.toOnward.trans h'.toOnward
  rx t := (h'.rx t).trans (h.rx t)
  trace := by
    obtain ⟨es, he, hes⟩ := h.trace
    obtain ⟨fs, hf, hfs⟩ := h'.trace
    refine ⟨es ++ fs, by rw [hf, he, List.append_assoc], fun e hmem => ?_⟩
    rcases List.mem_append.mp hmem with hm | hm
    · exact hes e hm
    · exact hfs e hm

theorem Passive.stream (h : Passive σ σ') (s k : ℕ) : σ'.stream s k = σ.stream s k := by
  obtain ⟨es, he, hes⟩ := h.trace
  have hnil : es.flatMap (Effect.chunk s k) = [] := by
    rw [List.flatMap_eq_nil_iff]
    exact fun e hmem => Effect.chunk_of_not_isData (hes e hmem) s k
  rw [Server.stream, he, List.flatMap_append, hnil, List.append_nil]
  rfl

theorem Passive.deliveries (h : Passive σ σ') (s k : ℕ) :
    σ'.deliveries s k = σ.deliveries s k := by
  obtain ⟨es, he, hes⟩ := h.trace
  have hnil : es.filterMap (Effect.delivery s k) = [] := by
    rw [List.filterMap_eq_nil_iff]
    exact fun e hmem => Effect.delivery_of_not_isData (hes e hmem) s k
  rw [Server.deliveries, he, List.filterMap_append, hnil, List.append_nil]
  rfl

theorem Kept.opens {N : Effect → Prop} (h : Kept N σ σ') (t : ℕ) (ho : σ'.Open t) : σ.Open t := by
  rw [Server.Open, h.id] at ho
  refine ⟨?_, ho.2⟩
  by_contra hc
  rw [Bool.not_eq_false] at hc
  rw [h.closed t hc, hc] at ho
  simp at ho

theorem Kept.passive (h : Kept (fun e => e.isNote = true) σ σ') : Passive σ σ' where
  id := h.id
  idGen := h.idGen
  opens := h.opens
  recvs op hop := .inl (h.recvs ▸ hop)
  rx := h.rx
  trace := by
    obtain ⟨es, he, hes⟩ := h.trace
    refine ⟨es, he, fun e hmem => ?_⟩
    have hor := hes e hmem
    cases e <;> first | rfl | simp [Effect.isNote, Effect.isSend] at hor

theorem Acts.passive {c : Option ℕ} (h : Handles env c σ σ') : Passive σ σ' := h.kept.passive

theorem closeSession_passive (hid : (σ.sessions s).id ≠ 0) : Passive σ (closeSession s σ) :=
  Acts.passive (closeSession_acts hid : Handles .calm (some s) σ (closeSession s σ))

theorem postRecv_passive (env : Env) (hid : (σ.sessions s).id ≠ 0) : Passive σ (postRecv env s σ) := by
  have hemit (ok : Bool) : Passive σ (σ.emit (.wsaRecv s (σ.sessions s).id ok)) :=
    ⟨⟨fun _ => rfl, rfl, fun _ => id, fun _ => .inl⟩, fun _ => rfl, [_], rfl, by simp [Effect.isData]⟩
  rcases postRecv_cases env s σ with ⟨-, he⟩ | ⟨hc, he | he⟩
  · rw [he]
    exact ⟨.refl σ, fun _ => rfl, [], by simp, by simp⟩
  · rw [he]
    refine ⟨⟨fun _ => rfl, rfl, fun _ => id, fun op hop => ?_⟩, fun _ => rfl, (hemit true).trace⟩
    rcases List.mem_append.mp hop with hop | hop
    · exact .inl hop
    · rw [List.mem_singleton.mp hop]
      exact .inr (by simp)
  · rw [he]
    exact (hemit false).trans (closeSession_passive hid)

theorem side_passive (σ : Server) (acc : AcceptSide) (socks : List ℕ) :
    Passive σ (σ.side acc socks) :=
  ⟨⟨fun _ => rfl, rfl, fun _ ho => ho, fun _ => .inl⟩, fun _ => rfl, [], by simp [Server.side],
    by simp⟩

theorem dequeueRecv_passive (σ : Server) (i : ℕ) : Passive σ (σ.dequeueRecv i) :=
  ⟨⟨fun _ => rfl, rfl, fun _ ho => ho, fun _ hop => .inl (List.mem_of_mem_eraseIdx hop)⟩,
    fun _ => rfl, [], by simp [Server.dequeueRecv], by simp⟩

theorem dequeueSend_passive (σ : Server) (i : ℕ) : Passive σ (σ.dequeueSend i) :=
  ⟨⟨fun _ => rfl, rfl, fun _ ho => ho, fun _ => .inl⟩, fun _ => rfl, [],
    by simp [Server.dequeueSend], by simp⟩

theorem fill_passive (σ : Server) (i : ℕ) (op : RecvOp) {data : List UInt8}
    (hlen : data.length ≤ bufferSize) : Passive σ (σ.fill i op data) := by
  refine ⟨⟨fun _ => rfl, rfl, fun _ ho => ho, fun op' hop' => ?_⟩, fun _ => rfl, [],
    by simp [Server.fill], by simp⟩
  rcases List.mem_or_eq_of_mem_set hop' with hop' | rfl
  · exact .inl hop'
  · exact .inr fun _ hd => Option.some.inj hd ▸ hlen

theorem accept_passive (hg : 0 < σ.sessionIdGen) {fuel : ℕ} {op : AcceptOp}
    (h : acceptCompletion env fuel op σ = some σ') :
    Passive σ σ' ∨ ∃ s free sock, Passive (connect s free sock σ) σ' := by
  rcases acceptCompletion_cases h with ⟨-, acc, socks, rfl⟩ |
    ⟨s, free, acc, socks, acc', socks', hf, rfl⟩
  · exact .inl (side_passive σ acc socks)
  · refine .inr ⟨s, free, op.acceptSock, ?_⟩
    have hid := connect_id_ne hg s free op.acceptSock
    have hpost := (postRecv_passive env hid).trans (side_passive _ acc socks)
    refine (hpost.trans (Acts.passive (c := none) (onClientConnected_acts ?_ fun _ _ => rfl))).trans
      (side_passive _ acc' socks')
    exact (postRecv_id env s s _).trans_ne hid

/-- Only the completion of a receive with bytes concerns a stream, and only an accept
gives a Session a new id. -/
theorem step_passive (hb : Books max σ) {e : Event} (hstep : step env σ e = some σ') :
    Passive σ σ' ∨ (∃ τ s free sock, Passive σ τ ∧ Passive (connect s free sock τ) σ') ∨
      ∃ i op data, e = .recv i ∧ σ.recvs[i]? = some op ∧ op.data = some data ∧ data ≠ [] ∧
        recvCompletion env op.sess data.length (σ.dequeueRecv i) = some σ' := by
  cases step_cases hstep with
  | @accept i fuel op _ hop haccept =>
    have hside : Passive σ (σ.dequeueAccept i) := side_passive σ _ σ.closedSocks
    rcases accept_passive (σ := σ.dequeueAccept i) hb.grounded.idGen haccept with
      hpass | ⟨s, free, sock, hpass⟩
    · exact .inl (hside.trans hpass)
    · exact .inr (.inl ⟨_, s, free, sock, hside, hpass⟩)
  | fill hop hd hlen => exact .inl (fill_passive σ _ _ hlen)
  | @recv i op data _ hop hd hrecv =>
    by_cases hnil : data = []
    · subst hnil
      have hclose := Option.some.inj ((recvCompletion_zero env op.sess (σ.dequeueRecv i)).symm.trans hrecv)
      rw [← hclose]
      exact .inl ((dequeueRecv_passive σ i).trans
        (closeSession_passive (hb.recvs op (List.mem_of_getElem? hop))))
    · exact .inr (.inr ⟨i, op, data, rfl, hop, hd, hnil, hrecv⟩)
  | @send i op hop =>
    have hid := hb.sends op (List.mem_of_getElem? hop)
    exact .inl ((dequeueSend_passive σ i).trans
      (Acts.passive (c := none) (postSend_acts hid)))
  | enqueueSend hid => exact .inl (Acts.passive (c := none) (enqueueSend_acts hid _))
  | broadcast =>
    exact .inl (Acts.passive (c := none) (broadcast_acts hb.grounded.known _ _))
  | closeSession hid => exact .inl (closeSession_passive hid)

/-! ### The loop of `RecvCompletion` -/

theorem Server.stream_emit (σ : Server) (e : Effect) (s k : ℕ) :
    (σ.emit e).stream s k = σ.stream s k ++ e.chunk s k := by
  simp [Server.stream, Server.emit]

theorem Server.deliveries_emit (σ : Server) (e : Effect) (s k : ℕ) :
    (σ.emit e).deliveries s k = σ.deliveries s k ++ (e.delivery s k).toList := by
  cases h : e.delivery s k <;> simp [Server.deliveries, Server.emit, h]

/-- Changing neither the id nor the flag of a Session opens or closes nothing. -/
theorem Server.open_set_same {x : Session} (hid : x.id = (σ.sessions s).id)
    (hc : x.closing = (σ.sessions s).closing) (t : ℕ) : (σ.set s x).Open t ↔ σ.Open t := by
  rw [σ.open_set, hid, hc]
  split_ifs with h
  · rw [h]
    rfl
  · rfl

theorem Server.open_push (σ : Server) (s t : ℕ) (data : List UInt8) :
    (σ.push t data).Open s ↔ σ.Open s := open_set_same (by rfl) (by rfl) s

theorem Server.open_setSending (σ : Server) (s t : ℕ) (b : Bool) :
    (σ.setSending t b).Open s ↔ σ.Open s := open_set_same (by rfl) (by rfl) s

theorem Server.open_popSend (σ : Server) (s t : ℕ) : (σ.popSend t).Open s ↔ σ.Open s :=
  open_set_same (by rfl) (by rfl) s

theorem Server.open_setRx (σ : Server) (s t : ℕ) (rx : RingBuffer) :
    (σ.setRx t rx).Open s ↔ σ.Open s := open_set_same (by rfl) (by rfl) s

theorem Server.rx_setRx_of_ne (σ : Server) {s t : ℕ} (rx : RingBuffer) (h : t ≠ s) :
    ((σ.setRx s rx).sessions t).rx = (σ.sessions t).rx := by
  rw [Server.setRx, σ.sessions_set, if_neg h]

theorem onward_set {x : Session} (hid : x.id = (σ.sessions s).id)
    (hc : x.closing = (σ.sessions s).closing) : Onward σ (σ.set s x) where
  id t := by
    rw [σ.sessions_set]
    split_ifs with h
    · rw [hid, h]
    · rfl
  idGen := rfl
  opens t := (Server.open_set_same hid hc t).mp
  recvs _ := .inl

theorem onward_setRx (σ : Server) (s : ℕ) (rx : RingBuffer) : Onward σ (σ.setRx s rx) :=
  onward_set rfl rfl

/-- The bytes in the ring of Session `s` were delivered as the reference has it. -/
structure Delivers (s : ℕ) (σ σ' : Server) : Prop extends Onward σ σ' where
  others : ∀ t, t ≠ s → (σ'.sessions t).rx = (σ.sessions t).rx
  cap : (σ'.sessions s).rx.cap = (σ.sessions s).rx.cap
  content : (σ'.sessions s).rx.content = (packets (σ.sessions s).rx.content).rest
  stream : ∀ t j, σ'.stream t j = σ.stream t j
  deliveries : ∀ t j, σ'.deliveries t j = σ.deliveries t j ++
    if t = s ∧ j = (σ.sessions s).id then reference (σ.sessions s).rx.content else []
  bad : (packets (σ.sessions s).rx.content).bad = true → ¬ σ'.Open s

theorem Passive.delivers (h : Passive σ σ')
    (hv : packetVerdict (σ.sessions s).rx.content = .more) : Delivers s σ σ' where
  toOnward := h.toOnward
  others t _ := h.rx t
  cap := by rw [h.rx]
  content := by rw [h.rx, packets, parse_more packetFraming hv]
  stream := h.stream
  deliveries t j := by simp [h.deliveries, reference_more hv]
  bad hb := by simp [packets, parse_more packetFraming hv] at hb

theorem not_open_closeSession (s : ℕ) (σ : Server) : ¬ (closeSession s σ).Open s := by
  cases hc : (σ.sessions s).closing with
  | true =>
    rw [closeSession_of_closing hc]
    intro ho
    simp [ho.1] at hc
  | false =>
    rw [open_closeSession hc]
    exact fun ho => ho.1 rfl

/-- A malformed stream is delivered as such, and the session closed. -/
theorem delivers_stops (hid : (σ.sessions s).id ≠ 0) (text : List UInt8)
    (hv : packetVerdict (σ.sessions s).rx.content = .bad) :
    Delivers s σ
      (closeSession s ((σ.emit (.log .warn text)).emit (.malformed s (σ.sessions s).id))) := by
  set τ := (σ.emit (.log .warn text)).emit (.malformed s (σ.sessions s).id)
  have hclose : Passive τ (closeSession s τ) := closeSession_passive hid
  refine ⟨⟨hclose.id, hclose.idGen, hclose.opens, hclose.recvs⟩, fun t _ => hclose.rx t, ?_, ?_,
    fun t j => ?_, fun t j => ?_, fun _ => not_open_closeSession s τ⟩
  · rw [hclose.rx]
    rfl
  · rw [hclose.rx, packets, parse_bad packetFraming hv]
    rfl
  · rw [hclose.stream, Server.stream_emit, Server.stream_emit]
    simp [Effect.chunk]
  · rw [hclose.deliveries, Server.deliveries_emit, Server.deliveries_emit, reference_bad hv]
    by_cases htj : t = s ∧ j = (σ.sessions s).id
    · simp [Effect.delivery, htj]
    · simp only [htj, if_false]
      simp [Effect.delivery, show ¬(s = t ∧ (σ.sessions s).id = j) from fun h => htj ⟨h.1.symm, h.2.symm⟩]

/-- A packet is delivered, and then what is left in the ring. -/
theorem delivers_packet {n : ℕ} {rx : RingBuffer} {υ : Server}
    (hv : packetVerdict (σ.sessions s).rx.content = .frame n)
    (hcap : rx.cap = (σ.sessions s).rx.cap) (hrx : rx.content = (σ.sessions s).rx.content.drop n)
    (hcall : Passive ((σ.setRx s rx).emit
      (.packet s (σ.sessions s).id ((σ.sessions s).rx.content.take n))) υ)
    (hrest : Delivers s υ σ') : Delivers s σ σ' := by
  set e : Effect := .packet s (σ.sessions s).id ((σ.sessions s).rx.content.take n)
  have hset := onward_setRx σ s rx
  have hring : Onward σ ((σ.setRx s rx).emit e) := ⟨hset.id, hset.idGen, hset.opens, hset.recvs⟩
  have hid : (υ.sessions s).id = (σ.sessions s).id := (hring.trans hcall.toOnward).id s
  have hleft : (υ.sessions s).rx = rx := (hcall.rx s).trans (σ.rx_setRx s rx)
  have hpackets : packets (σ.sessions s).rx.content =
      (packets rx.content).after [(σ.sessions s).rx.content.take n] := by
    rw [packets, packets, parse_frame packetFraming hv, hrx]
  refine ⟨hring.trans (hcall.toOnward.trans hrest.toOnward), fun t ht => ?_, ?_, ?_, fun t j => ?_,
    fun t j => ?_, fun hb => hrest.bad ?_⟩
  · rw [hrest.others t ht, hcall.rx]
    exact σ.rx_setRx_of_ne rx ht
  · rw [hrest.cap, hleft, hcap]
  · rw [hrest.content, hleft, hpackets]
    rfl
  · rw [hrest.stream, hcall.stream, Server.stream_emit]
    simp [e, Effect.chunk, Server.stream, Server.setRx, Server.set]
  · rw [hrest.deliveries, hcall.deliveries, Server.deliveries_emit, hid, hleft,
      reference_frame hv, hrx]
    by_cases htj : t = s ∧ j = (σ.sessions s).id
    · simp only [htj, if_true, e, Effect.delivery, and_self, Option.toList_some,
        List.append_assoc, List.singleton_append]
      rfl
    · simp only [htj, if_false, e, Effect.delivery, List.append_nil, Option.toList_none,
        show ¬(s = t ∧ (σ.sessions s).id = j) from fun h => htj ⟨h.1.symm, h.2.symm⟩]
      rfl
  · rw [hpackets] at hb
    rwa [hleft]

theorem Drained.delivers (h : Drained env s σ σ') (hid : (σ.sessions s).id ≠ 0) (hk : σ.Known) :
    Delivers s σ σ' := by
  induction h with
  | waits σ hv => exact (postRecv_passive env hid).delivers hv
  | stops σ text hv => exact delivers_stops hid text hv
  | packet σ σ' n rx hv hcap hrx hrest ih =>
    exact delivers_packet hv hcap hrx (packetDone_handles env n rx hid hk).passive
      (ih (packetDone_id env n rx hid hk) (packetDone_known env n rx hid hk))

/-! ### Along a run -/

/-- Every stream was delivered as the reference has it, and the ring of an open
Session holds what the reference waits with. -/
structure Parsed (σ : Server) : Prop where
  cap : ∀ s, (σ.sessions s).rx.cap = 64 * 1024
  room : ∀ s, (σ.sessions s).rx.content.length < 64 * 1024
  chunks : ∀ op ∈ σ.recvs, ∀ data, op.data = some data → data.length ≤ bufferSize
  delivered : ∀ s k, σ.deliveries s k = reference (σ.stream s k)
  waiting : ∀ s, σ.Open s → (packets (σ.stream s (σ.sessions s).id)).bad = false ∧
    (packets (σ.stream s (σ.sessions s).id)).rest = (σ.sessions s).rx.content
  fresh : ∀ s k, σ.sessionIdGen ≤ k → σ.stream s k = []

theorem parsed_new (maxSessions : ℕ) : Parsed (.new maxSessions) where
  cap s := by rfl
  room s := by simp [Server.new, Session.new]
  chunks op hop := by simp [Server.new] at hop
  delivered s k := by rfl
  waiting s ho := absurd rfl ho.2
  fresh s k _ := by rfl

theorem Onward.chunks (h : Onward σ σ') (hp : Parsed σ) :
    ∀ op ∈ σ'.recvs, ∀ data, op.data = some data → data.length ≤ bufferSize := by
  intro op hop data hd
  rcases h.recvs op hop with hop | hlen
  · exact hp.chunks op hop data hd
  · exact hlen data hd

theorem Parsed.passive (hp : Parsed σ) (h : Passive σ σ') : Parsed σ' where
  cap s := by rw [h.rx]; exact hp.cap s
  room s := by rw [h.rx]; exact hp.room s
  chunks := h.chunks hp
  delivered s k := by rw [h.deliveries, h.stream]; exact hp.delivered s k
  waiting s ho := by rw [h.id, h.stream, h.rx]; exact hp.waiting s (h.opens s ho)
  fresh s k hk := by rw [h.stream]; exact hp.fresh s k (h.idGen ▸ hk)

theorem stream_connect (s : ℕ) (free : List ℕ) (sock : Option ℕ) (σ : Server) (t j : ℕ) :
    (connect s free sock σ).stream t j = σ.stream t j := by
  rw [connect_eq]
  exact (σ.stream_emit (.accepted s σ.sessionIdGen) t j).trans (List.append_nil _)

theorem Parsed.connect (hp : Parsed σ) (s : ℕ) (free : List ℕ) (sock : Option ℕ) :
    Parsed (connect s free sock σ) := by
  have hses (t : ℕ) := sessions_connect s t free sock σ
  have hrx : (σ.connected s sock).rx.content = [] := rfl
  have hcap : (σ.connected s sock).rx.cap = (σ.sessions s).rx.cap := rfl
  have hstream (t j : ℕ) := stream_connect s free sock σ t j
  have hdeliveries (t j : ℕ) :
      (IocpChat.connect s free sock σ).deliveries t j = σ.deliveries t j := by
    rw [connect_eq]
    exact (σ.deliveries_emit (.accepted s σ.sessionIdGen) t j).trans (List.append_nil _)
  have hopen (t : ℕ) (ht : t ≠ s) : (IocpChat.connect s free sock σ).Open t ↔ σ.Open t := by
    simp only [Server.Open, hses, if_neg ht]
  refine ⟨fun t => ?_, fun t => ?_, ?_, fun t j => ?_, fun t ho => ?_, fun t j hj => ?_⟩
  · rw [hses]
    split_ifs
    · rw [hcap]
      exact hp.cap s
    · exact hp.cap t
  · rw [hses]
    split_ifs
    · simp [hrx]
    · exact hp.room t
  · rw [connect_eq]
    exact hp.chunks
  · rw [hdeliveries, hstream]
    exact hp.delivered t j
  · rw [hstream]
    by_cases ht : t = s
    · -- nothing was received for the new id, and the ring is empty
      rw [hses, if_pos ht, show (σ.connected s sock).id = σ.sessionIdGen from rfl,
        hp.fresh t _ le_rfl, hrx]
      exact ⟨rfl, rfl⟩
    · rw [hses, if_neg ht]
      exact hp.waiting t ((hopen t ht).mp ho)
  · rw [hstream]
    apply hp.fresh
    rw [connect_eq] at hj
    exact (Nat.le_succ _).trans hj

theorem Parsed.verdict (hp : Parsed σ) (ho : σ.Open s) :
    packetVerdict (σ.sessions s).rx.content = .more := by
  obtain ⟨hgood, hrest⟩ := hp.waiting s ho
  rw [← hrest]
  exact parse_rest_more packetFraming hgood

/-- The ring has room for what a receive brings. -/
theorem Parsed.append_all (hp : Parsed σ) (ho : σ.Open s) (data : List UInt8)
    (hlen : data.length ≤ bufferSize) :
    ((σ.sessions s).rx.append data data.length).1 = data.length ∧
      ((σ.sessions s).rx.append data data.length).2.cap = 64 * 1024 ∧
      ((σ.sessions s).rx.append data data.length).2.content =
        (σ.sessions s).rx.content ++ data := by
  obtain ⟨hwritten, hcap, hcontent⟩ := (σ.sessions s).rx.append_spec (le_refl data.length)
  have hshort := length_lt_of_more (hp.verdict ho)
  have hsize := (σ.sessions s).rx.content_length
  have hfit : min data.length ((σ.sessions s).rx.cap - (σ.sessions s).rx.size) = data.length := by
    rw [hp.cap]
    simp only [bufferSize] at hlen
    omega
  rw [hfit] at hwritten hcontent
  exact ⟨hwritten, hcap.trans (hp.cap s), by rw [hcontent, List.take_length]⟩

/-- A receive with bytes is stored in the ring as a whole, and the loop runs. -/
theorem recvCompletion_eq (env : Env) {n : ℕ} (hb : Books max σ) (hp : Parsed σ) (ho : σ.Open s)
    (hpos : 0 < n) (hn : n ≤ bufferSize) :
    ∃ rx, rx.cap = 64 * 1024 ∧
      rx.content = (σ.sessions s).rx.content ++ σ.readMem (σ.sessions s).rxBuf n ∧
      recvCompletion env s n σ = some (drain env s (rx.readable + 1) [] ((σ.setRx s rx).emit
        (.received s (σ.sessions s).id (σ.readMem (σ.sessions s).rxBuf n)))) := by
  set data := σ.readMem (σ.sessions s).rxBuf n
  have hdata : data.length = n := σ.readMem_length _ n
  have hbuf : ¬((σ.sessions s).rxBuf.isNone = true ∧ 0 < (σ.sessions s).rx.writable) :=
    fun h => hb.open_buf s ho (Option.isNone_iff_eq_none.mp h.1)
  have happend := hp.append_all ho data (by omega)
  rw [hdata] at happend
  obtain ⟨hwritten, hcap, hcontent⟩ := happend
  refine ⟨((σ.sessions s).rx.append data n).2, hcap, hcontent, ?_⟩
  simp only [recvCompletion, if_neg hpos.ne', if_neg hbuf]
  exact if_neg (Nat.not_lt.mpr hwritten.ge)

theorem recvCompletion_drained (env : Env) {n : ℕ} (hb : Books max σ) (hp : Parsed σ) (ho : σ.Open s)
    (hpos : 0 < n) (hn : n ≤ bufferSize) :
    ∃ rx σ', rx.cap = 64 * 1024 ∧
      rx.content = (σ.sessions s).rx.content ++ σ.readMem (σ.sessions s).rxBuf n ∧
      recvCompletion env s n σ = some σ' ∧
      Drained env s ((σ.setRx s rx).emit
        (.received s (σ.sessions s).id (σ.readMem (σ.sessions s).rxBuf n))) σ' := by
  obtain ⟨rx, hcap, hcontent, hrecv⟩ := recvCompletion_eq env hb hp ho hpos hn
  have hid : ((σ.setRx s rx).sessions s).id ≠ 0 := (σ.id_setRx s s rx).trans_ne ho.2
  have hk : (σ.setRx s rx).Known := hb.grounded.known.setRx s rx
  refine ⟨rx, _, hcap, hcontent, hrecv, drain_drained (rx.readable + 1) [] hid hk ?_⟩
  rw [Server.sessions_emit, σ.rx_setRx, rx.content_length]
  exact Nat.lt_succ_self _

theorem Delivers.stream_received {rx : RingBuffer} {data : List UInt8}
    (h : Delivers s ((σ.setRx s rx).emit (.received s (σ.sessions s).id data)) σ') (t j : ℕ) :
    σ'.stream t j = σ.stream t j ++ if t = s ∧ j = (σ.sessions s).id then data else [] := by
  rw [h.stream, Server.stream_emit]
  simp only [Effect.chunk, eq_comm]
  rfl

/-- A receive extends its stream, and the stream is delivered as the reference has it. -/
theorem Parsed.received (hp : Parsed σ) (hb : Books max σ) (ho : σ.Open s) {rx : RingBuffer} {data : List UInt8}
    (hlen : data.length ≤ bufferSize) (hcap : rx.cap = 64 * 1024)
    (hrx : rx.content = (σ.sessions s).rx.content ++ data)
    (h : Delivers s ((σ.setRx s rx).emit (.received s (σ.sessions s).id data)) σ') :
    Parsed σ' := by
  set e : Effect := .received s (σ.sessions s).id data
  set τ := (σ.setRx s rx).emit e
  have hset := onward_setRx σ s rx
  have hring : Onward σ τ := ⟨hset.id, hset.idGen, hset.opens, hset.recvs⟩
  have hon := hring.trans h.toOnward
  have hid : (τ.sessions s).id = (σ.sessions s).id := σ.id_setRx s s rx
  have hleft : (τ.sessions s).rx = rx := σ.rx_setRx s rx
  have hother (t : ℕ) (ht : t ≠ s) : (σ'.sessions t).rx = (σ.sessions t).rx :=
    (h.others t ht).trans (σ.rx_setRx_of_ne rx ht)
  obtain ⟨hgood, hrest⟩ := hp.waiting s ho
  have hdeliveries (t j : ℕ) : σ'.deliveries t j = σ.deliveries t j ++
      if t = s ∧ j = (σ.sessions s).id then reference rx.content else [] := by
    rw [h.deliveries, hid, hleft, Server.deliveries_emit]
    simp [e, Effect.delivery, Server.deliveries, Server.setRx, Server.set]
  refine ⟨fun t => ?_, fun t => ?_, hon.chunks hp, fun t j => ?_, fun t ho' => ?_, fun t j hj => ?_⟩
  · by_cases ht : t = s
    · rw [ht, h.cap, hleft, hcap]
    · rw [hother t ht]
      exact hp.cap t
  · by_cases ht : t = s
    · have hshort := length_lt_of_more (hp.verdict ho)
      have hle := rest_length_le ((σ.sessions s).rx.content ++ data)
      rw [List.length_append] at hle
      simp only [bufferSize] at hlen
      rw [ht, h.content, hleft, hrx]
      omega
    · rw [hother t ht]
      exact hp.room t
  · rw [hdeliveries, h.stream_received, hp.delivered]
    split_ifs with htj
    · rw [htj.1, htj.2, reference_append _ _ hgood, hrest, hrx]
    · rw [List.append_nil, List.append_nil]
  · rw [hon.id, h.stream_received]
    by_cases ht : t = s
    · subst ht
      rw [if_pos ⟨rfl, rfl⟩, packets_append _ _ hgood, hrest, h.content, hleft, hrx]
      refine ⟨?_, rfl⟩
      by_contra hbad
      refine h.bad ?_ ho'
      rw [hleft, hrx]
      simpa [Parse.after] using hbad
    · rw [if_neg (by simp [ht]), List.append_nil, hother t ht]
      exact hp.waiting t (hon.opens t ho')
  · have hlt := hb.id_lt s
    have hidGen := hon.idGen
    have hne : ¬(t = s ∧ j = (σ.sessions s).id) := by omega
    rw [h.stream_received, if_neg hne, List.append_nil]
    exact hp.fresh t j (hon.idGen ▸ hj)

/-- A receive of a closed Session with bytes reads through a null `rxBuf`. -/
theorem recvCompletion_null {n : ℕ} (hb : Books max σ) (hp : Parsed σ) (ho : ¬ σ.Open s)
    (hpos : 0 < n) : recvCompletion env s n σ = none := by
  have hbuf := hb.closed_buf s ho
  have hroom := hp.room s
  have hwritable : 0 < (σ.sessions s).rx.writable := by
    rw [RingBuffer.content_length] at hroom
    rw [RingBuffer.writable, hp.cap]
    omega
  simp only [recvCompletion, if_neg hpos.ne', hbuf, Option.isNone_none, hwritable, and_self, if_true]

/-- What the completion of a receive with bytes does. -/
theorem Parsed.recv (hp : Parsed σ) (env : Env) (hb : Books max σ) (ho : σ.Open s) {n : ℕ} (hpos : 0 < n)
    (hn : n ≤ bufferSize) :
    ∃ σ', recvCompletion env s n σ = some σ' ∧ Parsed σ' ∧ ∀ t j, σ'.stream t j = σ.stream t j ++
      if t = s ∧ j = (σ.sessions s).id then σ.readMem (σ.sessions s).rxBuf n else [] := by
  obtain ⟨rx, σ', hcap, hrx, hrecv, hdrained⟩ :=
    recvCompletion_drained env hb hp ho hpos hn
  have hdelivers := hdrained.delivers ((σ.id_setRx s s rx).trans_ne ho.2)
    (hb.grounded.known.setRx s rx)
  exact ⟨σ', hrecv, hp.received hb ho (by simpa using hn) hcap hrx hdelivers,
    hdelivers.stream_received⟩

/-- Only for an open Session does the completion of a receive with bytes return. -/
theorem Parsed.open_of_recv (hp : Parsed σ) (hb : Books max σ) {i : ℕ} {data : List UInt8}
    (hne : data ≠ []) (h : recvCompletion env s data.length (σ.dequeueRecv i) = some σ') :
    σ.Open s := by
  by_contra ho
  have hdeq := hp.passive (dequeueRecv_passive σ i)
  rw [recvCompletion_null (hb.dequeueRecv i) hdeq (by exact ho) (List.length_pos_iff.mpr hne)] at h
  contradiction

theorem Parsed.step (hp : Parsed σ) (hb : Books max σ) {e : Event}
    (hstep : step env σ e = some σ') : Parsed σ' := by
  rcases step_passive hb hstep with hpass | ⟨τ, s, free, sock, hpre, hpost⟩ |
    ⟨i, op, data, -, hop, hd, hne, hrecv⟩
  · exact hp.passive hpass
  · exact ((hp.passive hpre).connect s free sock).passive hpost
  · have hdeq := hp.passive (dequeueRecv_passive σ i)
    have hlen := hp.chunks op (List.mem_of_getElem? hop) data hd
    have ho : (σ.dequeueRecv i).Open op.sess := hp.open_of_recv hb hne hrecv
    obtain ⟨υ, hυ, hparsed, -⟩ :=
      hdeq.recv env (hb.dequeueRecv i) ho (List.length_pos_iff.mpr hne) hlen
    exact Option.some.inj (hυ.symm.trans hrecv) ▸ hparsed

theorem parsed_run {maxSessions n fuel : ℕ} {σ₀ : Server} {ok : Server → Event → Prop}
    {es : List Event} (hstart : start env maxSessions n fuel = some σ₀)
    (h : Exec (step env) ok σ₀ es σ) : Parsed σ := by
  refine invariant_run (P := Parsed) hstart (fun acc socks => ?_) ?_ h
  · have hnew := parsed_new maxSessions
    exact ⟨hnew.cap, hnew.room, hnew.chunks, hnew.delivered, hnew.waiting, hnew.fresh⟩
  · exact fun σ e σ' hb hp _ hstep => hp.step hb hstep

theorem Parsed.refines (hp : Parsed σ) (s k : ℕ) : Refines σ s k where
  delivered := hp.delivered s k
  closed hmem := by
    rintro ⟨ho, rfl⟩
    rw [hp.delivered, reference, (hp.waiting s ho).1] at hmem
    simp at hmem
  kept ho hk := by
    subst hk
    rw [← (hp.waiting s ho).2]
    exact parse_flatten packetFraming _

/-- Framing refines the reference parser: in every run, every receive with bytes of
an open Session is taken up, every connection's deliveries are the reference parse of
the bytes received for it, and they are those of any other run with the same bytes. -/
theorem framing_refines {maxSessions n fuel : ℕ} {σ₀ σ : Server} {es : List Event}
    (hstart : start env maxSessions n fuel = some σ₀)
    (h : Exec (step env) (fun _ _ => True) σ₀ es σ) :
    (∀ s k, Refines σ s k) ∧
      (∀ i op data, σ.recvs[i]? = some op → op.data = some data → data ≠ [] → σ.Open op.sess →
        ∃ σ', step env σ (.recv i) = some σ' ∧ ∀ k, (σ.sessions op.sess).id = k →
          σ'.stream op.sess k =
            σ.stream op.sess k ++ σ.readMem (σ.sessions op.sess).rxBuf data.length) ∧
      ∀ (env' : Env) (maxSessions' n' fuel' : ℕ) (σ₀' σ' : Server) (es' : List Event) (s k s' k' : ℕ),
        start env' maxSessions' n' fuel' = some σ₀' →
          Exec (step env') (fun _ _ => True) σ₀' es' σ' → σ'.stream s' k' = σ.stream s k →
            σ'.deliveries s' k' = σ.deliveries s k := by
  have hp := parsed_run hstart h
  have hb := books_run hstart h
  refine ⟨hp.refines, ?_, ?_⟩
  · intro i op data hop hd hne ho
    have hlen := hp.chunks op (List.mem_of_getElem? hop) data hd
    obtain ⟨σ', hrecv, -, hstream⟩ := (hp.passive (dequeueRecv_passive σ i)).recv env
      (hb.dequeueRecv i) ho (List.length_pos_iff.mpr hne) hlen
    have hown : σ'.stream op.sess (σ.sessions op.sess).id =
        σ.stream op.sess (σ.sessions op.sess).id ++
          σ.readMem (σ.sessions op.sess).rxBuf data.length :=
      (hstream op.sess _).trans (by rw [if_pos ⟨rfl, rfl⟩]; rfl)
    exact ⟨σ', (step_recv hop hd).trans hrecv, fun k hk => hk ▸ hown⟩
  · intro env' maxSessions' n' fuel' σ₀' σ' es' s k s' k' hstart' h' hsame
    rw [hp.delivered, (parsed_run hstart' h').delivered, hsame]

/-- Two packets in two receives, cut inside the header of the first. -/
def cutHeader : List Event :=
  [.accept 0 1, .fill 0 [4, 0], .recv 0, .fill 0 [13, 0, 4, 0, 13, 0], .recv 0]

theorem framing_refines_cutHeader :
    ∃ σ : Server, σ.Open 0 ∧
      σ.deliveries 0 1 = [.packet [4, 0, 13, 0], .packet [4, 0, 13, 0]] := by
  obtain ⟨σ₀, σ, hstart, hrun, hstream, hclosing, hid⟩ : ∃ σ₀ σ, start .calm 1 1 1 = some σ₀ ∧
      Exec (step .calm) (fun _ _ => True) σ₀ cutHeader σ ∧
        σ.stream 0 1 = [4, 0, 13, 0, 4, 0, 13, 0] ∧ (σ.sessions 0).closing = false ∧
        (σ.sessions 0).id = 1 := exists_run (by decide +kernel)
  have hdelivered := ((framing_refines hstart hrun).1 0 1).delivered
  refine ⟨σ, ⟨hclosing, by simp [hid]⟩, ?_⟩
  rw [hdelivered, hstream]
  decide

end IocpChat
