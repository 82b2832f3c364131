import IocpChat.Proofs.Dispatch
import IocpChat.Proofs.Stream
import IocpChat.Spec.Typed

/-! The requests of a client at the server. As long as every packet a client sends is a
whole one, or is cut off behind what is sent last, the framer gives the dispatcher the
packets as they were sent. A packet that is shorter than it announces takes what is sent
after it for its own bytes. -/

namespace IocpChat

open Framed
open Runs (Exec)

variable {crt : StrncpyS} {env : Env} {s k : ℕ} {σ : Server} {c c' : EchoClient}
  {ts : List Transmission} {n : ℕ}

/-! ### The handlers the server calls -/

def invocations (bytes : List UInt8) : List (Handler × List UInt8) :=
  (reference bytes).filterMap Delivery.invocation

theorem invocations_more {bytes : List UInt8} (h : packetVerdict bytes = .more) :
    invocations bytes = [] := by
  unfold invocations
  rw [reference_more h]
  rfl

/-- `OnPacket` calls that handler and no other. -/
theorem onPacket_dispatch (env : Env) (s : ℕ) (packet : List UInt8) (σ : Server) :
    match dispatch packet with
    | some h => onPacket env s packet σ = h.run env s packet σ
    | none => ∃ text, onPacket env s packet σ = σ.emit (.log .error text) := by
  cases hd : dispatch packet with
  | some h =>
    have htakes := dispatch_eq_some.mp hd
    simp only [onPacket, if_neg (Nat.not_lt.mpr htakes.1)]
    exact processOnePacket_run htakes
  | none =>
    dsimp only [onPacket]
    split_ifs with hshort
    · exact ⟨_, rfl⟩
    · exact processOnePacket_log (dispatch_eq_none.mp hd)

/-! ### What a client sends -/

def Request.size (r : Request) : ℕ :=
  match r.handler with
  | some h => h.length
  | none => 9999

theorem Request.announces (crt : StrncpyS) {r : Request} {h : Handler} (hr : r.handler = some h) :
    Announces h.type h.length (r.bytes crt) := by
  cases r with
  | login name =>
    obtain rfl := Option.some.inj hr
    exact Packet.announces (PKLoginReq.ownHeader_ofName name)
  | chatMessage data =>
    obtain rfl := Option.some.inj hr
    exact PKChatMessage.announces rfl
  | userCount =>
    obtain rfl := Option.some.inj hr
    exact HeaderPacket.announces rfl rfl
  | exit nick =>
    obtain rfl := Option.some.inj hr
    exact Packet.announces (PKExit.ownHeader_ofNick nick)
  | errorLog => contradiction

theorem Request.handler_of_ne {r : Request} (hr : r ≠ .errorLog) : ∃ h, r.handler = some h := by
  cases r with
  | login name => exact ⟨.login, rfl⟩
  | chatMessage data => exact ⟨.chatMessage, rfl⟩
  | userCount => exact ⟨.userCount, rfl⟩
  | exit nick => exact ⟨.exit, rfl⟩
  | errorLog => exact absurd rfl hr

theorem Handler.length_le (h : Handler) : h.length ≤ kMaxPacket := by
  cases h <;> decide

theorem Request.size_bytes (crt : StrncpyS) (r : Request) :
    kHeaderSize ≤ (r.bytes crt).length ∧ (PacketHeader.ofBytes (r.bytes crt)).size.toNat = r.size ∧
      (r.bytes crt).length ≤ r.size ∧ kHeaderSize ≤ r.size ∧ r.size ≤ kMaxPacket := by
  unfold Request.size
  cases hr : r.handler with
  | some h =>
    obtain ⟨hlen, -, hsize⟩ := Request.announces crt hr
    exact ⟨hlen.symm ▸ h.four_le_length, hsize, hlen.le, h.four_le_length, h.length_le⟩
  | none =>
    cases r with
    | errorLog =>
      have hfake : kHeaderSize ≤ fakePacket.length ∧
          (PacketHeader.ofBytes fakePacket).size.toNat = 9999 ∧ fakePacket.length ≤ 9999 ∧
          kHeaderSize ≤ 9999 ∧ 9999 ≤ kMaxPacket := by decide
      exact hfake
    | _ => contradiction

theorem Request.bytes_ne_nil (crt : StrncpyS) (r : Request) : r.bytes crt ≠ [] := by
  intro hnil
  have hlen := (r.size_bytes crt).1
  rw [hnil] at hlen
  exact absurd hlen (by decide)

/-- Of a request that is not whole nothing is delivered. -/
theorem Request.verdict_more (r : Request) {q : List UInt8} (hq : q <+: r.bytes crt)
    (hlen : q.length < r.size) : packetVerdict q = .more := by
  obtain ⟨hfour, hsize, -, hmin, hmax⟩ := r.size_bytes crt
  rw [packetVerdict_of_announced hfour hsize hmin hmax hq, if_pos hlen]

theorem Request.reference_bytes {r : Request} {h : Handler} (hr : r.handler = some h)
    (rest : List UInt8) :
    reference (r.bytes crt ++ rest) = .packet (r.bytes crt) :: reference rest := by
  obtain ⟨hmin, hsize, -, -, hmax⟩ := r.size_bytes crt
  have hlen : r.size = (r.bytes crt).length := by
    rw [Request.size, hr]
    exact (Request.announces crt hr).1.symm
  rw [hlen] at hsize hmax
  exact reference_packet (packetVerdict_whole hmin hmax hsize) rest

theorem Request.dispatch_bytes {r : Request} {h : Handler} (hr : r.handler = some h) :
    dispatch (r.bytes crt) = some h := by
  obtain ⟨hlen, hid, hsize⟩ := Request.announces crt hr
  have hfour := (r.size_bytes crt).1
  apply dispatch_eq_some.mpr
  exact ⟨hfour, (hsize.trans hlen.symm).le, hid, hsize⟩

theorem Request.invocations_append {r : Request} {h : Handler} (hr : r.handler = some h)
    (rest : List UInt8) :
    invocations (r.bytes crt ++ rest) = (h, r.bytes crt) :: invocations rest := by
  unfold invocations
  rw [Request.reference_bytes hr, List.filterMap_cons, Delivery.invocation, Request.dispatch_bytes hr]
  rfl

/-! ### Partial sends -/

theorem sendBytesAll_spec (results : List ℤ) (data : List UInt8) :
    (sendBytesAll results data).2 <+: data ∧
      ((sendBytesAll results data).1 = true ↔ (sendBytesAll results data).2 = data) := by
  induction results generalizing data with
  | nil =>
    cases data with
    | nil => simp [sendBytesAll]
    | cons b data => simp [sendBytesAll]
  | cons r results ih =>
    cases data with
    | nil => simp [sendBytesAll]
    | cons b data =>
      by_cases hr : r ≤ 0
      · simp [sendBytesAll, hr]
      · obtain ⟨hpre, hall⟩ := ih ((b :: data).drop r.toNat)
        have hsplit := List.take_append_drop r.toNat (b :: data)
        set sent := sendBytesAll results ((b :: data).drop r.toNat)
        have heq : sendBytesAll (r :: results) (b :: data) =
            (sent.1, (b :: data).take r.toNat ++ sent.2) := by
          rw [sendBytesAll, if_neg hr]
        rw [heq]
        constructor
        · obtain ⟨rest, hrest⟩ := hpre
          exact ⟨rest, by rw [List.append_assoc, hrest, hsplit]⟩
        · rw [hall]
          constructor
          · intro h
            rw [h, hsplit]
          · intro h
            exact List.append_cancel_left (h.trans hsplit.symm)

/-- A transmission sent a part of its request, and returned true if that is all of it. -/
structure Transmission.Sound (crt : StrncpyS) (t : Transmission) : Prop where
  part : t.sent <+: t.request.bytes crt
  all : t.ok = true ↔ t.sent = t.request.bytes crt

theorem Transmission.errorLog_of_not_whole {t : Transmission} (hpart : ¬ t.Whole)
    (hok : t.ok = true) : t.request = .errorLog := by
  by_contra hreal
  apply hpart
  exact .inr ⟨hok, hreal⟩

theorem Transmission.Sound.invocation_of_nil {t : Transmission} (ht : t.Sound crt)
    (hnil : t.sent = []) : t.invocation = none := by
  have hok : ¬ t.ok = true := by
    intro hok
    exact t.request.bytes_ne_nil crt ((ht.all.mp hok).symm.trans hnil)
  rw [Transmission.invocation, if_neg hok]

theorem requestsIn_of_silent (hsound : ∀ t ∈ ts, t.Sound crt) (hnil : ∀ t ∈ ts, t.sent = []) (n : ℕ) :
    requestsIn n ts = [] := by
  induction ts generalizing n with
  | nil => rfl
  | cons t ts ih =>
    have ht := hnil t (List.mem_cons_self ..)
    have hrest := ih (fun u hu => hsound u (List.mem_cons_of_mem t hu))
      (fun u hu => hnil u (List.mem_cons_of_mem t hu)) n
    have hno := (hsound t (List.mem_cons_self ..)).invocation_of_nil ht
    rw [requestsIn, hno, ht]
    simpa using hrest

/-- Of a transmission that is not whole nothing is delivered, whatever was received. -/
theorem Transmission.Sound.verdict_more {t : Transmission} (ht : t.Sound crt) (hpart : ¬ t.Whole)
    {bytes : List UInt8} (hbytes : bytes <+: t.sent) : packetVerdict bytes = .more := by
  obtain ⟨-, -, hle, -, -⟩ := t.request.size_bytes crt
  refine t.request.verdict_more (hbytes.trans ht.part) ?_
  have hlen := hbytes.length_le
  by_cases hok : t.ok = true
  · have hfake := t.errorLog_of_not_whole hpart hok
    have hshort : fakePacket.length < Request.errorLog.size := by decide
    rw [ht.all.mp hok, hfake] at hlen
    rw [hfake]
    exact hlen.trans_lt hshort
  · -- a proper part is shorter than the whole
    have hlt : t.sent.length < (t.request.bytes crt).length := by
      apply lt_of_le_of_ne ht.part.length_le
      intro h
      exact hok (ht.all.mpr (ht.part.eq_of_length h))
    omega

theorem Transmission.invocation_of_not_whole {t : Transmission} (hpart : ¬ t.Whole) :
    t.invocation = none := by
  rw [invocation]
  split_ifs with hok
  · rw [t.errorLog_of_not_whole hpart hok]
    rfl
  · rfl

/-! ### The requests in a received stream -/

/-- What the server calls for the first bytes of transmissions of which only the last one
that got something out is not whole. -/
theorem invocations_of_received (hsound : ∀ t ∈ ts, t.Sound crt)
    (horder : ts.Pairwise fun t u => t.Whole ∨ u.sent = []) {bytes : List UInt8}
    (hbytes : bytes <+: ts.flatMap (·.sent)) :
    invocations bytes = requestsIn bytes.length ts := by
  induction ts generalizing bytes with
  | nil =>
    obtain rfl := List.prefix_nil.mp hbytes
    exact invocations_more rfl
  | cons t ts ih =>
    have ht := hsound t (List.mem_cons_self ..)
    have hsound' : ∀ u ∈ ts, u.Sound crt := fun u hu => hsound u (List.mem_cons_of_mem t hu)
    obtain ⟨hbehind, horder'⟩ := List.pairwise_cons.mp horder
    rw [List.flatMap_cons] at hbytes
    rw [requestsIn]
    by_cases hpart : t.Whole
    · rcases hpart with hnil | ⟨hok, hreal⟩
      · -- nothing was sent
        rw [hnil, List.nil_append] at hbytes
        rw [ht.invocation_of_nil hnil, hnil]
        simpa using ih hsound' horder' hbytes
      · have hsent := ht.all.mp hok
        obtain ⟨h, hh⟩ := Request.handler_of_ne hreal
        rw [hsent] at hbytes ⊢
        split_ifs with hle
        · -- a whole request was received
          obtain ⟨rest, rfl⟩ : t.request.bytes crt <+: bytes :=
            List.prefix_of_prefix_length_le (List.prefix_append _ _) hbytes hle
          have hinv : t.invocation = some (h, t.request.bytes crt) := by
            rw [Transmission.invocation, if_pos hok, hh, hsent]
            rfl
          have hrest := ih hsound' horder' ((List.prefix_append_right_inj _).mp hbytes)
          rw [Request.invocations_append hh, hinv, List.length_append, Nat.add_sub_cancel_left, hrest]
          rfl
        · -- only its beginning
          have hcut : bytes <+: t.request.bytes crt :=
            List.prefix_of_prefix_length_le hbytes (List.prefix_append _ _) (by omega)
          obtain ⟨-, -, hsize, -, -⟩ := t.request.size_bytes crt
          exact invocations_more (t.request.verdict_more hcut (by omega))
    · have hsilent : ∀ u ∈ ts, u.sent = [] := fun u hu => (hbehind u hu).resolve_left hpart
      have hflat : ts.flatMap (·.sent) = [] := List.flatMap_eq_nil_iff.mpr hsilent
      rw [hflat, List.append_nil] at hbytes
      rw [invocations_more (ht.verdict_more hpart hbytes), t.invocation_of_not_whole hpart,
        requestsIn_of_silent hsound' hsilent]
      split_ifs <;> rfl

/-! ### Runs of the client -/

theorem sendBytesAll_silent {results : List ℤ} (h : ∀ r ∈ results.head?, r ≤ 0) (data : List UInt8) :
    (sendBytesAll results data).2 = [] := by
  cases data with
  | nil => cases results <;> rfl
  | cons b data =>
    cases results with
    | nil => rfl
    | cons r results => rw [sendBytesAll, if_pos (h r rfl)]

def Request.transmit (crt : StrncpyS) (r : Request) (results : List ℤ) : Transmission where
  request := r
  ok := (sendBytesAll results (r.bytes crt)).1
  sent := (sendBytesAll results (r.bytes crt)).2

theorem Request.transmit_sound (crt : StrncpyS) (r : Request) (results : List ℤ) :
    (r.transmit crt results).Sound crt := by
  obtain ⟨hpart, hall⟩ := sendBytesAll_spec results (r.bytes crt)
  exact ⟨hpart, hall⟩

theorem EchoClient.sendPacket_eq (crt : StrncpyS) (c : EchoClient) (r : Request) (results : List ℤ) :
    sendPacket crt c r results = ((r.transmit crt results).ok,
      { c with sent := c.sent ++ [r.transmit crt results] }) := rfl

theorem EchoClient.sendLine_sent (crt : StrncpyS) (c : EchoClient) (text : List UInt8) (now : UInt64)
    (results : List ℤ) :
    ∃ r, (sendLine crt c text now results).sent = c.sent ++ [Request.transmit crt r results] := by
  simp only [sendLine, sendPacket_eq]
  split_ifs
  · exact ⟨.login text, rfl⟩
  · exact ⟨.exit c.nickname, rfl⟩
  · exact ⟨.userCount, rfl⟩
  · exact ⟨.errorLog, rfl⟩
  · exact ⟨.chatMessage ⟨unknownSender, text, now⟩, rfl⟩
  · exact ⟨.chatMessage ⟨c.nickname, text, now⟩, rfl⟩

theorem EchoClient.step_sent {e : Input} (hstep : c.step crt e = some c') :
    c'.sent = c.sent ∨ ∃ text now results r, e = .line text now results ∧
      c'.sent = c.sent ++ [Request.transmit crt r results] := by
  cases e with
  | stop =>
    obtain rfl := Option.some.inj hstep
    exact .inl rfl
  | line text now results =>
    simp only [step, Option.ite_none_right_eq_some, Option.some.injEq] at hstep
    obtain ⟨-, rfl⟩ := hstep
    obtain ⟨r, hr⟩ := sendLine_sent crt c text now results
    exact .inr ⟨text, now, results, r, rfl, hr⟩

/-- Every call of `sendBytesAll` is sound, and only behind whole packets something was sent. -/
structure EchoClient.Orderly (crt : StrncpyS) (c : EchoClient) : Prop where
  sound : ∀ t ∈ c.sent, t.Sound crt
  order : c.sent.Pairwise fun t u => t.Whole ∨ u.sent = []

theorem EchoClient.orderly_new (crt : StrncpyS) (nickname : List UInt8) :
    (EchoClient.new nickname).Orderly crt :=
  ⟨fun _ ht => absurd ht List.not_mem_nil, List.Pairwise.nil⟩

theorem EchoClient.Orderly.step {e : Input} (hc : c.Orderly crt) (hkeeps : c.Keeps e)
    (hstep : c.step crt e = some c') : c'.Orderly crt := by
  rcases step_sent hstep with hsent | ⟨text, now, results, r, rfl, hsent⟩
  · exact ⟨hsent ▸ hc.sound, hsent ▸ hc.order⟩
  · constructor
    · intro t ht
      rw [hsent] at ht
      rcases List.mem_append.mp ht with ht | ht
      · exact hc.sound t ht
      · rw [List.mem_singleton.mp ht]
        exact r.transmit_sound crt results
    · rw [hsent, List.pairwise_append]
      refine ⟨hc.order, List.pairwise_singleton _ _, ?_⟩
      intro t ht u hu
      rw [List.mem_singleton.mp hu]
      rcases hkeeps with hwhole | hsilent
      · exact .inl (hwhole t ht)
      · exact .inr (sendBytesAll_silent hsilent _)

/-- Wherever a client that keeps the packets whole and a server have come: if the server
has received a part of what the client sent, it has called exactly the handlers of the
requests that were sent and received as a whole, in order and with their bytes. -/
theorem requests_handled {nickname : List UInt8} {is : List Input} {maxSessions m fuel : ℕ}
    {σ₀ : Server} {es : List Event}
    (hclient : Exec (EchoClient.step crt) EchoClient.Keeps (.new nickname) is c)
    (hstart : start env maxSessions m fuel = some σ₀)
    (hserver : Exec (step env) (fun _ _ => True) σ₀ es σ) (hreceived : σ.stream s k <+: c.wire) :
    σ.invoked s k = requestsIn (σ.stream s k).length c.sent := by
  have horderly : c.Orderly crt := hclient.invariant
    (fun c e c' hc hkeeps hstep => EchoClient.Orderly.step hc hkeeps hstep)
    (EchoClient.orderly_new crt nickname)
  rw [Server.invoked, (parsed_run hstart hserver).delivered]
  exact invocations_of_received horderly.sound horderly.order hreceived

/-- The events of a server that accepts one client and receives some bytes at once. -/
def receiveAtOnce (bytes : List UInt8) : List Event := [.accept 0 1, .fill 0 bytes, .recv 0]

/-- A nickname, which `::send` takes in two parts, and a request for the user count. -/
def countUsers : List Input := [.line [97] 0 [20, 16], .line userCountCommand 0 [4]]

def nameRequest : Handler × List UInt8 := (.login, [36, 0, 11, 0, 97] ++ List.replicate 31 0)

def countRequest : Handler × List UInt8 := (.userCount, [4, 0, 13, 0])

theorem requests_handled_countUsers : ∃ σ : Server, σ.invoked 0 1 = [nameRequest, countRequest] := by
  obtain ⟨c, hclient, hwire, hrequests⟩ :
      ∃ c, Exec (EchoClient.step .release) EchoClient.Keeps (.new []) countUsers c ∧
        c.wire = nameRequest.2 ++ countRequest.2 ∧ requestsIn 40 c.sent = [nameRequest, countRequest] :=
    Exec.exists_of_runIf (by decide +kernel)
  obtain ⟨σ₀, σ, hstart, hserver, hstream⟩ : ∃ σ₀ σ, start .calm 1 1 1 = some σ₀ ∧
      Exec (step .calm) (fun _ _ => True) σ₀ (receiveAtOnce (nameRequest.2 ++ countRequest.2)) σ ∧
        σ.stream 0 1 = nameRequest.2 ++ countRequest.2 := exists_run (by decide +kernel)
  have hreceived : σ.stream 0 1 <+: c.wire := by rw [hstream, hwire]
  have hlen : (σ.stream 0 1).length = 40 := by rw [hstream]; rfl
  have hhandled := requests_handled hclient hstart hserver hreceived
  rw [hlen, hrequests] at hhandled
  exact ⟨σ, hhandled⟩

/-- The same with the error-log command in between. -/
def logError : List Input :=
  [.line [97] 0 [36], .line errorLogCommand 0 [8], .line userCountCommand 0 [4]]

/-- What is sent behind the packet of the error-log command is received and not handled. -/
theorem requests_swallowed :
    ∃ (is : List Input) (c : EchoClient) (maxSessions m fuel : ℕ) (σ₀ σ : Server) (es : List Event),
      Exec (EchoClient.step .release) (fun _ _ => True) (.new []) is c ∧
        start .calm maxSessions m fuel = some σ₀ ∧
        Exec (step .calm) (fun _ _ => True) σ₀ es σ ∧ σ.stream 0 1 <+: c.wire ∧
        σ.invoked 0 1 ≠ requestsIn (σ.stream 0 1).length c.sent := by
  set bytes := nameRequest.2 ++ fakePacket ++ countRequest.2 with hbytes
  obtain ⟨c, hclient, hwire, hrequests⟩ :
      ∃ c, Exec (EchoClient.step .release) (fun _ _ => True) (.new []) logError c ∧
        c.wire = bytes ∧ requestsIn 48 c.sent = [nameRequest, countRequest] :=
    Exec.exists_of_runIf (by decide +kernel)
  obtain ⟨σ₀, σ, hstart, hserver, hstream, hinvoked⟩ : ∃ σ₀ σ, start .calm 1 1 1 = some σ₀ ∧
      Exec (step .calm) (fun _ _ => True) σ₀ (receiveAtOnce bytes) σ ∧
        σ.stream 0 1 = bytes ∧ σ.invoked 0 1 = [nameRequest] := exists_run (by decide +kernel)
  have hlen : (σ.stream 0 1).length = 48 := by rw [hstream]; rfl
  refine ⟨logError, c, 1, 1, 1, σ₀, σ, receiveAtOnce bytes, hclient, hstart, hserver, ?_, ?_⟩
  · rw [hstream, hwire]
  · rw [hlen, hrequests, hinvoked]
    decide

-- A `LoginReq` that was cut off swallows the request behind it in the same way.
example : (Runs.runIf (EchoClient.step .release) (fun _ _ => True) (.new [])
    [.line [97] 0 [20, 0], .line userCountCommand 0 [4]]).map
      (fun c => (invocations c.wire, requestsIn 24 c.sent)) = some ([], [countRequest]) := by
  decide +kernel

end IocpChat
