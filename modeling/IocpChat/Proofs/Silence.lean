import IocpChat.Proofs.Stream
import IocpChat.Spec.Announce

/-! The record of a server that keeps silent about closed connections: acts of handlers
never break the silence, and the loop of `RecvCompletion` keeps it if it has nothing to
go on with behind the packet that closes the session. -/

namespace IocpChat

open Framed
open Runs (Exec)

variable {env : Env} {cur : Option ℕ} {s k max : ℕ} {σ σ' : Server}

/-! ### What is said about a connection -/

def Delivery.announce : Delivery → Option (List UInt8)
  | .packet bytes => IocpChat.announce bytes
  | .malformed => none

/-- The record keeps silent about closed connections and announces what was delivered. -/
structure Hushed (σ : Server) : Prop where
  id_lt : ∀ s, (σ.sessions s).id < σ.sessionIdGen
  order : LastWord σ.trace
  live : ∀ s, σ.Open s → Effect.closed s (σ.sessions s).id ∉ σ.trace
  fresh : ∀ s k, σ.sessionIdGen ≤ k → Effect.closed s k ∉ σ.trace
  told : ∀ s k, σ.announced s k = (σ.deliveries s k).filterMap Delivery.announce

theorem hushed_new (maxSessions : ℕ) : Hushed (.new maxSessions) where
  id_lt _ := Nat.one_pos
  order := List.Pairwise.nil
  live _ ho := absurd rfl ho.2
  fresh _ _ _ := List.not_mem_nil
  told _ _ := rfl

theorem Hushed.onward (h : Hushed σ) (hon : Onward σ σ') (htrace : σ'.trace = σ.trace) :
    Hushed σ' where
  id_lt s := by rw [hon.id, hon.idGen]; exact h.id_lt s
  order := htrace ▸ h.order
  live s ho := by rw [htrace, hon.id]; exact h.live s (hon.opens s ho)
  fresh s k hk := by rw [htrace]; exact h.fresh s k (hon.idGen ▸ hk)
  told s k := by
    unfold Server.announced Server.deliveries
    rw [htrace]
    exact h.told s k

def Effect.isClosed : Effect → Bool
  | .closed .. => true
  | _ => false

theorem LastWord.append {trace es : List Effect} (h : LastWord trace) (hes : LastWord es)
    (hown : ∀ e ∈ es, ∀ s k, e.concerns s k = true → Effect.closed s k ∉ trace) :
    LastWord (trace ++ es) := by
  unfold LastWord
  rw [List.pairwise_append]
  refine ⟨h, hes, fun e hmem e' hmem' s k he => ?_⟩
  by_contra hc
  rw [Bool.not_eq_false] at hc
  exact hown e' hmem' s k hc (he ▸ hmem)

theorem lastWord_of_not_closed {es : List Effect} (h : ∀ e ∈ es, e.isClosed = false) :
    LastWord es := by
  refine List.pairwise_of_forall_mem_list fun e hmem _ _ s k he => ?_
  have hno := h e hmem
  simp [he, Effect.isClosed] at hno

theorem Hushed.record (h : Hushed σ) (es : List Effect) (hclosed : ∀ e ∈ es, e.isClosed = false)
    (hown : ∀ e ∈ es, ∀ s k, e.concerns s k = true → Effect.closed s k ∉ σ.trace)
    (htold : ∀ s k, es.filterMap (Effect.announced s k) =
      (es.filterMap (Effect.delivery s k)).filterMap Delivery.announce) : Hushed (σ.record es) where
  id_lt := h.id_lt
  order := h.order.append (lastWord_of_not_closed hclosed) hown
  live s ho hmem := by
    rcases List.mem_append.mp hmem with hmem | hmem
    · exact h.live s ho hmem
    · exact absurd (hclosed _ hmem) (by simp [Effect.isClosed])
  fresh s k hk hmem := by
    rcases List.mem_append.mp hmem with hmem | hmem
    · exact h.fresh s k hk hmem
    · exact absurd (hclosed _ hmem) (by simp [Effect.isClosed])
  told s k := by
    have htrace := h.told s k
    unfold Server.announced Server.deliveries at htrace ⊢
    rw [Server.record, List.filterMap_append, List.filterMap_append, List.filterMap_append, htrace,
      htold]

/-- An effect that neither closes a connection nor is announced or announces. -/
def Effect.isPlain : Effect → Bool
  | .packet .. | .broadcast .. | .closed .. => false
  | _ => true

theorem Hushed.emit (h : Hushed σ) {e : Effect} (he : e.isPlain = true)
    (hown : ∀ s k, e.concerns s k = true → Effect.closed s k ∉ σ.trace) : Hushed (σ.emit e) := by
  refine h.record [e] (fun e' he' => ?_) (fun e' he' => ?_) fun s k => ?_
  · rw [List.mem_singleton.mp he']
    cases e <;> first | rfl | simp [Effect.isPlain] at he
  · rw [List.mem_singleton.mp he']
    exact hown
  · cases e with
    | malformed t j =>
      simp only [List.filterMap_cons, List.filterMap_nil, Effect.announced, Effect.delivery]
      split_ifs <;> rfl
    | packet | broadcast | closed => simp [Effect.isPlain] at he
    | _ => rfl

theorem Hushed.log (h : Hushed σ) (level : LogLevel) (text : List UInt8) :
    Hushed (σ.emit (.log level text)) :=
  h.emit rfl fun s k hc => by simp [Effect.concerns] at hc

theorem Hushed.emitOpen (h : Hushed σ) (ho : σ.Open s) (hk : (σ.sessions s).id = k) {e : Effect}
    (he : e.isPlain = true) (hown : ∀ t j, e.concerns t j = true → s = t ∧ k = j) :
    Hushed (σ.emit e) := by
  refine h.emit he fun t j hc => ?_
  obtain ⟨rfl, rfl⟩ := hown t j hc
  exact hk ▸ h.live s ho

theorem Hushed.close (h : Hushed σ) (ho : σ.Open s) : Hushed (closeSession s σ) := by
  have htrace := trace_closeSession ho.1
  have hid (t : ℕ) := closeSession_id s t σ
  have hgen : (closeSession s σ).sessionIdGen = σ.sessionIdGen :=
    (closeSession_passive ho.2).idGen
  have hne (t j : ℕ) (hmem : Effect.closed t j ∈ σ.trace ++ [.closed s (σ.sessions s).id]) :
      Effect.closed t j ∈ σ.trace ∨ t = s ∧ j = (σ.sessions s).id := by
    rcases List.mem_append.mp hmem with hmem | hmem
    · exact .inl hmem
    · exact .inr (by simpa using hmem)
  refine ⟨fun t => ?_, ?_, fun t ht hmem => ?_, fun t j hj hmem => ?_, fun t j => ?_⟩
  · rw [hid, hgen]
    exact h.id_lt t
  · rw [htrace]
    apply h.order.append (List.pairwise_singleton _ _)
    intro e he t j hc
    rw [List.mem_singleton.mp he] at hc
    obtain ⟨rfl, rfl⟩ : s = t ∧ (σ.sessions s).id = j := of_decide_eq_true hc
    exact h.live s ho
  · rw [open_closeSession ho.1] at ht
    rw [htrace, hid] at hmem
    rcases hne t _ hmem with hmem | ⟨hts, -⟩
    · exact h.live t ht.2 hmem
    · exact ht.1 hts
  · rw [hgen] at hj
    rw [htrace] at hmem
    rcases hne t j hmem with hmem | ⟨-, rfl⟩
    · exact h.fresh t j hj hmem
    · exact absurd (h.id_lt s) (Nat.not_lt.mpr hj)
  · have htold := h.told t j
    unfold Server.announced Server.deliveries at htold ⊢
    rw [htrace, List.filterMap_append, List.filterMap_append, List.filterMap_append, htold]
    rfl

/-! ### Handlers -/

theorem Hushed.handed (h : Hushed σ) {t : ℕ} (ho : σ.Open t) (ok : Bool) :
    Hushed (σ.handed t ok) := by
  have hpop : Hushed (σ.popSend t) := h.onward (onward_set rfl rfl) rfl
  have hopen : (σ.popSend t).Open t := ho.of_set rfl rfl
  have hid : ((σ.popSend t).sessions t).id = (σ.sessions t).id := by simp [Server.popSend]
  exact hpop.emitOpen hopen hid rfl fun _ _ hc => of_decide_eq_true hc

theorem Hushed.act (h : Hushed σ) (hact : Act env cur (fun e => e.isLog = true) σ σ') :
    Hushed σ' := by
  cases hact with
  | note e he =>
    cases e with
    | log level text => exact h.log level text
    | _ => simp [Effect.isLog] at he
  | push t data ho => exact h.onward (onward_set rfl rfl) rfl
  | claim t ho => exact h.onward (onward_set rfl rfl) rfl
  | idle t ho hq => exact h.onward (onward_set rfl rfl) rfl
  | hand t ho =>
    have hh := h.handed ho true
    exact ⟨hh.id_lt, hh.order, hh.live, hh.fresh, hh.told⟩
  | fail t ho hf => exact (h.handed ho false).close (ho.handed false)
  | close s hs ho => exact h.close ho

theorem Hushed.acts (h : Hushed σ) (hacts : Acts env cur (fun e => e.isLog = true) σ σ') :
    Hushed σ' := by
  induction hacts with
  | refl => exact h
  | tail _ hact ih => exact ih.act hact

/-- A packet is handed to its handler, which announces it. -/
theorem Hushed.packet (h : Hushed σ) (ho : σ.Open s) (text packet : List UInt8) :
    Hushed ((σ.emit (.packet s (σ.sessions s).id packet)).announcing s text (announce packet)) := by
  set k := (σ.sessions s).id
  have hown (e : Effect) (he : ∀ t j, e.concerns t j = true → s = t ∧ k = j) :
      ∀ t j, e.concerns t j = true → Effect.closed t j ∉ σ.trace := by
    intro t j hc
    obtain ⟨rfl, rfl⟩ := he t j hc
    exact h.live s ho
  have hpacket := hown (.packet s k packet) fun _ _ hc => of_decide_eq_true hc
  cases ha : announce packet with
  | none =>
    refine h.record [.packet s k packet] (by simp [Effect.isClosed]) ?_ fun t j => ?_
    · simpa using hpacket
    · simp only [List.filterMap_cons, List.filterMap_nil, Effect.announced, Effect.delivery]
      split_ifs
      · simp [Delivery.announce, ha]
      · rfl
  | some bytes =>
    have hcast := hown (.broadcast s k bytes) fun _ _ hc => of_decide_eq_true hc
    have hlog := hown (.log .info text) fun _ _ hc => by simp [Effect.concerns] at hc
    have heq : (σ.emit (.packet s k packet)).announcing s text (some bytes) =
        σ.record [.packet s k packet, .log .info text, .broadcast s k bytes] := by
      simp [Server.announcing, Server.record, Server.emit, k]
    rw [heq]
    refine h.record _ (by simp [Effect.isClosed]) ?_ fun t j => ?_
    · simp only [List.forall_mem_cons]
      exact ⟨hpacket, hlog, hcast, by simp⟩
    · simp only [List.filterMap_cons, List.filterMap_nil, Effect.announced, Effect.delivery]
      split_ifs
      · simp [Delivery.announce, ha]
      · rfl

theorem Hushed.postsRecv (h : Hushed σ) (hid : (σ.sessions s).id ≠ 0) :
    Hushed (postRecv env s σ) := by
  have hemit (ok : Bool) (hc : (σ.sessions s).closing = false) :
      Hushed (σ.emit (.wsaRecv s (σ.sessions s).id ok)) :=
    h.emitOpen ⟨hc, hid⟩ rfl rfl fun _ _ hown => of_decide_eq_true hown
  rcases postRecv_cases env s σ with ⟨-, he⟩ | ⟨hc, he | he⟩
  · rw [he]
    exact h
  · rw [he]
    have hh := hemit true hc
    exact ⟨hh.id_lt, hh.order, hh.live, hh.fresh, hh.told⟩
  · rw [he]
    exact (hemit false hc).close ⟨hc, hid⟩

theorem Hushed.connect (h : Hushed σ) (s : ℕ) (free : List ℕ) (sock : Option ℕ) :
    Hushed (connect s free sock σ) := by
  have hses (t : ℕ) := sessions_connect s t free sock σ
  have hgen : (IocpChat.connect s free sock σ).sessionIdGen = σ.sessionIdGen + 1 := by
    rw [connect_eq]
  have hemit : Hushed (σ.emit (.accepted s σ.sessionIdGen)) := by
    refine h.emit rfl fun t j hc => ?_
    obtain ⟨rfl, rfl⟩ : s = t ∧ σ.sessionIdGen = j := of_decide_eq_true hc
    exact h.fresh s _ le_rfl
  have htrace : (IocpChat.connect s free sock σ).trace =
      (σ.emit (.accepted s σ.sessionIdGen)).trace := by
    rw [connect_eq]
    rfl
  refine ⟨fun t => ?_, htrace ▸ hemit.order, fun t ho => ?_, fun t j hj => ?_, fun t j => ?_⟩
  · rw [hses, hgen]
    split_ifs
    · exact Nat.lt_succ_self _
    · exact (h.id_lt t).trans (Nat.lt_succ_self _)
  · rw [htrace]
    by_cases ht : t = s
    · rw [hses, if_pos ht]
      exact hemit.fresh t _ le_rfl
    · rw [Server.Open, hses, if_neg ht] at ho
      rw [hses, if_neg ht]
      exact hemit.live t ho
  · rw [htrace]
    rw [hgen] at hj
    exact hemit.fresh t j ((Nat.le_succ _).trans hj)
  · have htold := hemit.told t j
    unfold Server.announced Server.deliveries at htold ⊢
    rw [htrace]
    exact htold

/-! ### The loop of `RecvCompletion` -/

theorem verdict_of_no_frames {bytes : List UInt8} (h : (packets bytes).frames = [])
    (hb : (packets bytes).bad = false) : packetVerdict bytes = .more := by
  cases hv : packetVerdict bytes with
  | more => rfl
  | bad => simp [packets, parse_bad packetFraming hv] at hb
  | frame n => simp [packets, parse_frame packetFraming hv, Parse.after] at h

/-- What an `Exit` leaves in the ring is not complete. -/
theorem exitLast_frame {bytes : List UInt8} {n : ℕ} (hv : packetVerdict bytes = .frame n)
    (h : exitLast bytes = true) :
    exitLast (bytes.drop n) = true ∧
      (isExit (bytes.take n) = true → packetVerdict (bytes.drop n) = .more) := by
  have hpackets : packets bytes = (packets (bytes.drop n)).after [bytes.take n] := by
    rw [packets, packets, parse_frame packetFraming hv]
  simp only [exitLast, hpackets, Parse.after, List.singleton_append, Bool.and_eq_true,
    decide_eq_true_eq, upToExit, List.any_cons] at h
  cases hexit : isExit (bytes.take n) with
  | false =>
    simp only [hexit, Bool.false_eq_true, if_false, List.cons.injEq, true_and,
      Bool.false_or] at h
    exact ⟨by simpa [exitLast] using h, fun hf => by simp at hf⟩
  | true =>
    simp only [hexit, if_true, List.cons.injEq, true_and, Bool.true_or, Bool.true_and,
      Bool.not_eq_true'] at h
    have hmore := verdict_of_no_frames h.1.symm h.2
    exact ⟨by simp [exitLast, ← h.1, upToExit], fun _ => hmore⟩

/-- Handlers that close nothing themselves close a Session by a failing `WSASend`. -/
theorem verdict_of_closed {N : Effect → Prop} (henv : FailsWaiting env)
    (hacts : Acts env none N σ σ') (ho : σ.Open s) (hc : ¬σ'.Open s) :
    packetVerdict (σ.sessions s).rx.content = .more := by
  induction hacts with
  | refl => exact absurd ho hc
  | @tail τ υ hpre hact ih =>
    by_cases hτ : τ.Open s
    · have hrx : (τ.sessions s).rx = (σ.sessions s).rx := (Acts.kept hpre).rx s
      rw [← hrx]
      cases hact with
      | note e he => exact absurd hτ hc
      | push t data ht =>
        exact absurd ((τ.open_push s t data).mpr hτ) hc
      | claim t ht =>
        exact absurd ((τ.open_setSending s t true).mpr hτ) hc
      | idle t ht hq =>
        exact absurd ((τ.open_setSending s t false).mpr hτ) hc
      | hand t ht =>
        exact absurd ((τ.open_popSend s t).mpr hτ) hc
      | close t ht _ => simp at ht
      | fail t ht hf =>
        have hhanded : (τ.handed t false).Open s := (τ.open_popSend s t).mpr hτ
        have hst : s = t := by
          by_contra hne
          exact hc ((open_closeSession (ht.handed false).1 s).mpr ⟨hne, hhanded⟩)
        have hmore := henv _ t hf
        rw [hst]
        simpa [Server.popSend] using hmore
    · exact ih hτ

@[simp] theorem announcing_sessions (σ : Server) (s : ℕ) (text : List UInt8) (told : Option (List UInt8)) :
    (σ.announcing s text told).sessions = σ.sessions := by
  cases told <;> rfl

/-- An `Exit` leaves its session closed. -/
theorem not_open_of_isExit {packet : List UInt8} (h : isExit packet = true) :
    ¬(onPacket env s packet σ).Open s := by
  have hlen := (dispatches_iff.mp h).1
  rw [onPacket, if_neg hlen, processOnePacket_exit h, handleExit_eq h]
  exact not_open_closeSession s _

/-- A packet with more behind it than the loop waits for leaves its session open. -/
theorem closes_last (henv : FailsWaiting env) {packet text : List UInt8} {υ : Server}
    (hacts : Acts env (if isExit packet then some s else none) (fun e => e.isLog = true)
      (σ.announcing s text (announce packet)) υ)
    (hexit : isExit packet = true → packetVerdict (σ.sessions s).rx.content = .more)
    (ho : σ.Open s) : υ.Open s ∨ packetVerdict (υ.sessions s).rx.content = .more := by
  have hsame := announcing_sessions σ s text (announce packet)
  have hopen : (σ.announcing s text (announce packet)).Open s := by
    rw [Server.Open, hsame]
    exact ho
  rw [hacts.kept.rx, hsame]
  by_cases hυ : υ.Open s
  · exact .inl hυ
  · cases he : isExit packet with
    | true => exact .inr (hexit he)
    | false =>
      rw [he] at hacts
      have hmore := verdict_of_closed henv hacts hopen hυ
      rw [hsame] at hmore
      exact .inr hmore

theorem packetDone_announces (env : Env) (n : ℕ) (rx : RingBuffer) (hid : (σ.sessions s).id ≠ 0)
    (hk : σ.Known) :
    ∃ text, Acts env (if isExit ((σ.sessions s).rx.content.take n) then some s else none)
      (fun e => e.isLog = true)
      (((σ.setRx s rx).emit (.packet s (σ.sessions s).id ((σ.sessions s).rx.content.take n))).announcing
        s text (announce ((σ.sessions s).rx.content.take n))) (packetDone env s n rx σ) :=
  onPacket_announces env (by exact (σ.id_setRx s s rx).trans_ne hid) (by exact hk.setRx s rx) _

/-- As long as an `Exit` is last, the loop keeps silent about closed connections. -/
theorem Drained.hushed (henv : FailsWaiting env) (hd : Drained env s σ σ')
    (hid : (σ.sessions s).id ≠ 0) (hk : σ.Known) (h : Hushed σ)
    (hlast : exitLast (σ.sessions s).rx.content = true)
    (hopen : σ.Open s ∨ packetVerdict (σ.sessions s).rx.content = .more) : Hushed σ' := by
  induction hd with
  | waits σ hv => exact h.postsRecv hid
  | stops σ text hv =>
    have ho : σ.Open s := hopen.resolve_right (by simp [hv])
    have hlog := h.log .warn text
    have hmal : Hushed ((σ.emit (.log .warn text)).emit (.malformed s (σ.sessions s).id)) :=
      hlog.emitOpen (s := s) ho rfl rfl fun _ _ hc => of_decide_eq_true hc
    exact hmal.close ho
  | packet σ σ' n rx hv hcap hrx hrest ih =>
    have ho : σ.Open s := hopen.resolve_right (by simp [hv])
    set pkt := (σ.sessions s).rx.content.take n
    set τ := (σ.setRx s rx).emit (.packet s (σ.sessions s).id pkt)
    have hidrx := σ.id_setRx s s rx
    have ho' : (σ.setRx s rx).Open s := (σ.open_setRx s s rx).mpr ho
    obtain ⟨hlast', hexit⟩ := exitLast_frame hv hlast
    obtain ⟨text, hacts⟩ := packetDone_announces env n rx hid hk
    have hring : Hushed (σ.setRx s rx) := h.onward (onward_setRx σ s rx) rfl
    have htold : Hushed (τ.announcing s text (announce pkt)) := by
      have := hring.packet ho' text pkt
      rwa [hidrx] at this
    refine ih (packetDone_id env n rx hid hk) (packetDone_known env n rx hid hk) (htold.acts hacts) ?_ ?_
    · rw [packetDone_rx env n rx hid hk, hrx]
      exact hlast'
    · refine closes_last henv hacts (fun he => ?_) ho'
      rw [Server.sessions_emit, σ.rx_setRx, hrx]
      exact hexit he

/-- A stream with an `Exit` in it leaves its session closed. -/
theorem Drained.not_open (hd : Drained env s σ σ') (hid : (σ.sessions s).id ≠ 0) (hk : σ.Known)
    (hexit : ∃ packet ∈ (packets (σ.sessions s).rx.content).frames, isExit packet = true) :
    ¬σ'.Open s := by
  induction hd with
  | waits σ hv => simp [packets, parse_more packetFraming hv] at hexit
  | stops σ text hv => simp [packets, parse_bad packetFraming hv] at hexit
  | packet σ σ' n rx hv hcap hrx hrest ih =>
    have hid' := packetDone_id env n rx hid hk
    have hk' := packetDone_known env n rx hid hk
    obtain ⟨packet, hmem, he⟩ := hexit
    rw [packets, parse_frame packetFraming hv] at hmem
    rcases List.mem_append.mp hmem with hmem | hmem
    · rw [List.mem_singleton.mp hmem] at he
      exact mt ((hrest.delivers hid' hk').opens s) (not_open_of_isExit he)
    · refine ih hid' hk' ⟨packet, ?_, he⟩
      rw [packetDone_rx env n rx hid hk, hrx]
      exact hmem

theorem closeSession_of_ne {t : ℕ} (h : s ≠ t) :
    (closeSession t σ).sessions s = σ.sessions s := by
  cases hc : (σ.sessions t).closing with
  | true => rw [closeSession_of_closing hc]
  | false => rw [sessions_closeSession hc, if_neg h]

theorem enqueueSend_of_ne {t : ℕ} (h : s ≠ t) (data : List UInt8) :
    (enqueueSend env t data σ).sessions s = σ.sessions s := by
  have hset (x : Session) : (σ.set t x).sessions s = σ.sessions s := by
    rw [Server.sessions_set, if_neg h]
  cases hc : (σ.sessions t).closing with
  | true => rw [enqueueSend_of_closing hc]
  | false =>
    cases hsending : (σ.sessions t).sending with
    | true => rw [enqueueSend_busy env data hc hsending, hset]
    | false =>
      rw [enqueueSend_idle env data hc hsending]
      split_ifs
      · rw [closeSession_of_ne h]
        exact hset _
      · exact hset _

/-- A broadcast does not touch the Session it excludes. -/
theorem broadcast_excluded (data : List UInt8) :
    (broadcast env data (some s) σ).sessions s = σ.sessions s := by
  unfold broadcast
  generalize env.order σ = targets
  induction targets generalizing σ with
  | nil => rfl
  | cons t targets ih =>
    rw [List.foldl_cons, ih]
    split_ifs with hst
    · rfl
    · exact enqueueSend_of_ne (fun he => hst (by rw [he])) data

/-- The handling of an `Exit` ends with the closing of its session. -/
theorem onPacket_exit_last {packet : List UInt8} (h : isExit packet = true) (ho : σ.Open s) :
    (onPacket env s packet σ).trace.getLast? = some (.closed s (σ.sessions s).id) := by
  have hlen := (dispatches_iff.mp h).1
  rw [onPacket, if_neg hlen, processOnePacket_exit h, handleExit_eq h]
  set text := ascii "Exit packet: session=" ++ decimal (σ.sessions s).id
  set bytes := exitNotice (PKExit.new.deserialize packet)
  set τ := σ.announcing s text (some bytes)
  have hsame : (broadcast env bytes (some s) τ).sessions s = σ.sessions s :=
    broadcast_excluded bytes
  rw [trace_closeSession (by rw [hsame]; exact ho.1), hsame]
  simp

theorem postRecv_of_not_open (hid : (σ.sessions s).id ≠ 0) (h : ¬σ.Open s) :
    postRecv env s σ = σ := by
  rcases postRecv_cases env s σ with ⟨-, he⟩ | ⟨hc, -⟩
  · exact he
  · exact absurd ⟨hc, hid⟩ h

theorem Drained.eq_postRecv (hd : Drained env s σ σ')
    (hv : packetVerdict (σ.sessions s).rx.content = .more) : σ' = postRecv env s σ := by
  cases hd with
  | waits => rfl
  | stops _ text hv' => simp [hv] at hv'
  | packet _ _ n rx hv' => simp [hv] at hv'

/-- If an `Exit` is last, closing its session is the last thing the loop does. -/
theorem Drained.exit_last (henv : FailsWaiting env) (hd : Drained env s σ σ') (hk : σ.Known)
    (ho : σ.Open s) (hlast : exitLast (σ.sessions s).rx.content = true)
    (hexit : ∃ packet ∈ (packets (σ.sessions s).rx.content).frames, isExit packet = true) :
    σ'.trace.getLast? = some (.closed s (σ.sessions s).id) := by
  induction hd with
  | waits σ hv => simp [packets, parse_more packetFraming hv] at hexit
  | stops σ text hv => simp [packets, parse_bad packetFraming hv] at hexit
  | packet σ σ' n rx hv hcap hrx hrest ih =>
    set pkt := (σ.sessions s).rx.content.take n
    have hid' := packetDone_id env n rx ho.2 hk
    have hk' := packetDone_known env n rx ho.2 hk
    have hleft : ((packetDone env s n rx σ).sessions s).rx.content =
        (σ.sessions s).rx.content.drop n := by rw [packetDone_rx env n rx ho.2 hk, hrx]
    have hidrx := σ.id_setRx s s rx
    have ho' : (σ.setRx s rx).Open s := (σ.open_setRx s s rx).mpr ho
    obtain ⟨hlast', hwaits⟩ := exitLast_frame hv hlast
    cases he : isExit pkt with
    | true =>
      rw [hrest.eq_postRecv (by rw [hleft]; exact hwaits he),
        postRecv_of_not_open hid' (not_open_of_isExit he), ← hidrx]
      exact onPacket_exit_last he ho'
    | false =>
      have hexit' : ∃ packet ∈ (packets ((σ.sessions s).rx.content.drop n)).frames,
          isExit packet = true := by
        obtain ⟨packet, hmem, hp⟩ := hexit
        rw [packets, parse_frame packetFraming hv] at hmem
        rcases List.mem_append.mp hmem with hmem | hmem
        · rw [List.mem_singleton.mp hmem, he] at hp
          contradiction
        · exact ⟨packet, hmem, hp⟩
      have hmore : packetVerdict ((σ.sessions s).rx.content.drop n) ≠ .more := fun hv' => by
        simp [packets, parse_more packetFraming hv'] at hexit'
      obtain ⟨text, hacts⟩ := packetDone_announces env n rx ho.2 hk
      have hopen := closes_last henv hacts (fun hp => absurd hp (by simpa using he)) ho'
      have hend := ih hk' (hopen.resolve_right (by rw [hleft]; exact hmore)) (by rwa [hleft])
        (by rwa [hleft])
      rw [hend, (packetDone_handles env n rx ho.2 hk).kept.id]
      exact congrArg (fun k => some (Effect.closed s k)) hidrx

end IocpChat
