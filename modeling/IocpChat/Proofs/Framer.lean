import IocpChat.Proofs.Announce
import IocpChat.Proofs.RingBuffer

/-! `Pop` takes from the ring what the stream format says is first in its content;
the loop of `RecvCompletion` does so until it waits or the stream is bad. -/

namespace IocpChat

open LittleEndian Framed

variable {env : Env} {s : ℕ} {σ σ' : Server}

theorem size_ofBytes (bytes : List UInt8) :
    (PacketHeader.ofBytes (bytes.take 4)).size.toNat = leNat (bytes.take 2) := by
  have hlt : leNat (bytes.take 2) < 2 ^ 16 :=
    calc leNat (bytes.take 2) < 256 ^ (bytes.take 2).length := leNat_lt _
      _ ≤ 256 ^ 2 := Nat.pow_le_pow_right (by norm_num) (List.length_take_le 2 bytes)
  simp only [PacketHeader.ofBytes, List.take_take, show min 2 4 = 2 from rfl]
  exact UInt16.toNat_ofNat_of_lt' hlt

theorem header_size (bytes : List UInt8) :
    (PacketHeader.ofBytes bytes).size.toNat = leNat (bytes.take 2) := by
  rw [← size_ofBytes, PacketHeader.ofBytes, PacketHeader.ofBytes, List.take_take]
  rfl

/-- The beginning of a packet is a whole frame once it is as long as announced. -/
theorem packetVerdict_of_announced {p q : List UInt8} {size : ℕ} (hp : kHeaderSize ≤ p.length)
    (hsize : (PacketHeader.ofBytes p).size.toNat = size) (hmin : kHeaderSize ≤ size)
    (hmax : size ≤ kMaxPacket) (hq : q <+: p) :
    packetVerdict q = if q.length < size then .more else .frame size := by
  obtain ⟨rest, rfl⟩ := hq
  simp only [kHeaderSize, kMaxPacket] at hp hmin hmax
  unfold packetVerdict
  by_cases h4 : q.length < 4
  · rw [if_pos h4, if_pos (by omega)]
  have hsize' : leNat (q.take 2) = size := by
    rw [← hsize, header_size, List.take_append_of_le_length (by omega)]
  rw [if_neg h4, hsize', if_neg (by omega)]

theorem packetVerdict_whole {p : List UInt8} (hmin : kHeaderSize ≤ p.length)
    (hmax : p.length ≤ kMaxPacket) (hsize : (PacketHeader.ofBytes p).size.toNat = p.length) :
    packetVerdict p = .frame p.length := by
  rw [packetVerdict_of_announced hmin hsize hmin hmax (List.prefix_refl p), if_neg (lt_irrefl _)]

/-- `Pop`, by what the content of the ring begins with. -/
theorem pop_spec (rb : RingBuffer) (out : List UInt8) :
    match packetVerdict rb.content with
    | .more => pop rb out = (.needMore, rb, out)
    | .bad => pop rb out = (.malformed, rb, out)
    | .frame n => ∃ rb', pop rb out = (.ok, rb', rb.content.take n) ∧ rb'.cap = rb.cap ∧
        rb'.content = rb.content.drop n := by
  have hlen := rb.content_length
  have hpeek := rb.peek_spec 4
  unfold packetVerdict pop RingBuffer.readable kHeaderSize
  rw [hlen]
  by_cases h4 : rb.size < 4
  · simp only [h4, if_true]
  rw [if_pos (by omega)] at hpeek
  simp only [h4, if_false, hpeek, size_ofBytes, kMaxPacket]
  set size := leNat (rb.content.take 2)
  by_cases hbad : size < 4 ∨ 32768 < size
  · simp only [hbad, if_true]
  by_cases hmore : rb.size < size
  · simp only [hbad, hmore, if_true, if_false]
  obtain ⟨hgot, hdst, hcap, hcontent⟩ := rb.read_spec size
  simp only [hbad, hmore, if_false]
  have hgot' : (rb.read size).1 = size := by omega
  have hrest : (resize out size).drop size = [] := by
    rw [List.drop_eq_nil_iff]
    simp only [resize, List.length_append, List.length_take, List.length_replicate]
    omega
  refine ⟨(rb.read size).2.2, ?_, hcap, hcontent⟩
  simp only [hgot', ne_eq, not_true_eq_false, if_false, hrest, List.append_nil, hdst]

theorem packetVerdict_content (rb : RingBuffer) : packetVerdict rb.content =
    if rb.readable < kHeaderSize then .more
    else if rb.announced < kHeaderSize ∨ kMaxPacket < rb.announced then .bad
    else if rb.readable < rb.announced then .more
    else .frame rb.announced := by
  unfold packetVerdict RingBuffer.announced
  rw [rb.content_length, header_size]
  rfl

theorem allOrNothing_pop (rb : RingBuffer) (out : List UInt8) :
    AllOrNothing rb out (pop rb out) := by
  have hpop := pop_spec rb out
  rw [packetVerdict_content] at hpop
  have hsize := rb.content_length
  by_cases hheader : rb.readable < kHeaderSize
  · rw [if_pos hheader] at hpop
    dsimp only at hpop
    rw [hpop]
    exact
      { kept := fun _ => ⟨rfl, rfl⟩
        malformed := ⟨nofun, fun h => absurd hheader h.1.not_gt⟩
        needMore := ⟨fun _ => .inl hheader, fun _ => rfl⟩
        whole := nofun }
  rw [if_neg hheader] at hpop
  by_cases hbad : rb.announced < kHeaderSize ∨ kMaxPacket < rb.announced
  · rw [if_pos hbad] at hpop
    dsimp only at hpop
    rw [hpop]
    exact
      { kept := fun _ => ⟨rfl, rfl⟩
        malformed := ⟨fun _ => ⟨Nat.le_of_not_lt hheader, hbad⟩, fun _ => rfl⟩
        needMore := ⟨nofun, fun h => by omega⟩
        whole := nofun }
  rw [if_neg hbad] at hpop
  by_cases hmore : rb.readable < rb.announced
  · rw [if_pos hmore] at hpop
    dsimp only at hpop
    rw [hpop]
    exact
      { kept := fun _ => ⟨rfl, rfl⟩
        malformed := ⟨nofun, fun h => absurd h.2 hbad⟩
        needMore := ⟨fun _ => .inr ⟨by omega, by omega, hmore⟩, fun _ => rfl⟩
        whole := nofun }
  · rw [if_neg hmore] at hpop
    obtain ⟨rb', hok, -, hrest⟩ := hpop
    rw [hok]
    have hlen : (rb.content.take rb.announced).length = rb.announced := by
      rw [List.length_take, hsize]
      exact min_eq_left (Nat.le_of_not_lt hmore)
    -- the two bytes that hold the size are among those taken
    have hheader' : (PacketHeader.ofBytes (rb.content.take rb.announced)).size.toNat =
        rb.announced := by
      rw [header_size, List.take_take, min_eq_left (by simp only [kHeaderSize] at hbad; omega),
        ← header_size]
      rfl
    exact
      { kept := fun h => absurd rfl h
        malformed := ⟨nofun, fun h => absurd h.2 hbad⟩
        needMore := ⟨nofun, fun h => by omega⟩
        whole := fun _ => ⟨rfl, hheader'.trans hlen.symm, hlen, hrest⟩ }

/-- Whatever a ring went through: `Pop` takes all of the packet in front or nothing, and what
it asks `read` for it gets, so that its last check never fails. -/
theorem pop_all_or_nothing (capacity : ℕ) (calls : List RingCall) (out : List UInt8) :
    let rb := (Runs.serve RingBuffer.call (.new capacity) calls).2
    AllOrNothing rb out (pop rb out) ∧
      (rb.announced ≤ rb.readable → (rb.read rb.announced).1 = rb.announced) := by
  intro rb
  refine ⟨allOrNothing_pop rb out, ?_⟩
  intro hall
  rw [(rb.read_spec rb.announced).1]
  exact min_eq_left hall

theorem Server.id_setRx (σ : Server) (s t : ℕ) (r : RingBuffer) :
    ((σ.setRx s r).sessions t).id = (σ.sessions t).id := by
  simp only [Server.setRx, Server.sessions_set]
  split_ifs with h
  · rw [h]
  · rfl

theorem Server.Known.setRx (hk : σ.Known) (s : ℕ) (r : RingBuffer) : (σ.setRx s r).Known :=
  fun t ht => by rw [σ.id_setRx]; exact hk t ht

/-- A packet of `n` bytes was taken out of the ring, which left `rx`, and handled. -/
def packetDone (env : Env) (s n : ℕ) (rx : RingBuffer) (σ : Server) : Server :=
  let packet := (σ.sessions s).rx.content.take n
  onPacket env s packet ((σ.setRx s rx).emit (.packet s (σ.sessions s).id packet))

/-- The loop of `RecvCompletion`, by what the ring of the Session begins with. -/
inductive Drained (env : Env) (s : ℕ) : Server → Server → Prop
  | waits (σ : Server) (hv : packetVerdict (σ.sessions s).rx.content = .more) :
      Drained env s σ (postRecv env s σ)
  | stops (σ : Server) (text : List UInt8)
      (hv : packetVerdict (σ.sessions s).rx.content = .bad) :
      Drained env s σ
        (closeSession s ((σ.emit (.log .warn text)).emit (.malformed s (σ.sessions s).id)))
  | packet (σ σ' : Server) (n : ℕ) (rx : RingBuffer)
      (hv : packetVerdict (σ.sessions s).rx.content = .frame n)
      (hcap : rx.cap = (σ.sessions s).rx.cap)
      (hrx : rx.content = (σ.sessions s).rx.content.drop n)
      (hrest : Drained env s (packetDone env s n rx σ) σ') : Drained env s σ σ'

theorem Server.setRx_self (σ : Server) (s : ℕ) : σ.setRx s (σ.sessions s).rx = σ := σ.set_self s

@[simp] theorem Server.rx_setRx (σ : Server) (s : ℕ) (rx : RingBuffer) :
    ((σ.setRx s rx).sessions s).rx = rx := by
  simp [Server.setRx]

theorem packetDone_handles (env : Env) (n : ℕ) (rx : RingBuffer) (hid : (σ.sessions s).id ≠ 0)
    (hk : σ.Known) :
    Handles env (some s) ((σ.setRx s rx).emit
      (.packet s (σ.sessions s).id ((σ.sessions s).rx.content.take n))) (packetDone env s n rx σ) :=
  onPacket_acts (by exact (σ.id_setRx s s rx).trans_ne hid) (by exact hk.setRx s rx) _

theorem packetDone_id (env : Env) (n : ℕ) (rx : RingBuffer) (hid : (σ.sessions s).id ≠ 0) (hk : σ.Known) :
    ((packetDone env s n rx σ).sessions s).id ≠ 0 := by
  rw [(packetDone_handles env n rx hid hk).kept.id]
  exact (σ.id_setRx s s rx).trans_ne hid

theorem packetDone_known (env : Env) (n : ℕ) (rx : RingBuffer) (hid : (σ.sessions s).id ≠ 0) (hk : σ.Known) :
    (packetDone env s n rx σ).Known :=
  (packetDone_handles env n rx hid hk).kept.known (hk.setRx s rx)

theorem packetDone_rx (env : Env) (n : ℕ) (rx : RingBuffer) (hid : (σ.sessions s).id ≠ 0) (hk : σ.Known) :
    ((packetDone env s n rx σ).sessions s).rx = rx := by
  rw [(packetDone_handles env n rx hid hk).kept.rx]
  exact σ.rx_setRx s rx

/-- Every packet takes bytes out of the ring, so the rounds of the loop are enough. -/
theorem drain_drained (fuel : ℕ) (pkt : List UInt8) (hid : (σ.sessions s).id ≠ 0) (hk : σ.Known)
    (hfuel : (σ.sessions s).rx.content.length < fuel) :
    Drained env s σ (drain env s fuel pkt σ) := by
  induction fuel generalizing σ pkt with
  | zero => omega
  | succ fuel ih =>
    have hpop := pop_spec (σ.sessions s).rx pkt
    cases hv : packetVerdict (σ.sessions s).rx.content with
    | more =>
      simp only [hv] at hpop
      simp only [drain, hpop, Server.setRx_self]
      exact .waits σ hv
    | bad =>
      simp only [hv] at hpop
      simp only [drain, hpop, Server.setRx_self]
      exact .stops σ _ hv
    | frame n =>
      simp only [hv] at hpop
      obtain ⟨rx, hpop, hcap, hrx⟩ := hpop
      have hpos : 0 < n := packetFraming.frame_pos hv
      have hle : n ≤ (σ.sessions s).rx.content.length := packetFraming.frame_le hv
      simp only [drain, hpop]
      refine .packet σ _ n rx hv hcap hrx
        (ih _ (packetDone_id env n rx hid hk) (packetDone_known env n rx hid hk) ?_)
      rw [packetDone_rx env n rx hid hk, hrx, List.length_drop]
      omega

end IocpChat
