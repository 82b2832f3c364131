import IocpChat.Proofs.SendLoop

/-! The name of a client at the server. Its requests are built by different copies of the
nickname and read by different handlers; all of them keep the first 31 bytes. -/

namespace IocpChat

variable {crt : StrncpyS} {nick : List UInt8}

theorem shortName_ne_zero (nick : List UInt8) : ∀ b ∈ shortName nick, b ≠ 0 := by
  intro b hb
  exact cstr_ne_zero nick b (List.mem_of_mem_take hb)

theorem shortName_ne_nil (h : cstr nick ≠ []) : shortName nick ≠ [] := by
  intro hnil
  rcases List.take_eq_nil_iff.mp hnil with h31 | hempty
  · exact absurd h31 (by decide)
  · exact h hempty

theorem length_shortName (nick : List UInt8) : (shortName nick).length ≤ 31 :=
  List.length_take_le _ _

/-- A text without a zero in it is its own C string. -/
theorem cstr_of_ne_zero {text : List UInt8} (h : ∀ b ∈ text, b ≠ 0) : cstr text = text := by
  have hself := cstr_append_zeros h 0
  rwa [List.replicate_zero, List.append_nil] at hself

theorem cstr_strncpy {n count : ℕ} (dst : Chars n) (src : List UInt8) (hn : 0 < n)
    (hcount : n - 1 ≤ count) :
    cstr (terminate (strncpy dst src count)).toList = (cstr src).take (n - 1) := by
  have hcopy := cstr_terminate_strncpy dst src [] hn hcount
  rwa [List.append_nil] at hcopy

/-! ### The requests of a client -/

theorem nameAtServer_userCount (crt : StrncpyS) : Request.userCount.nameAtServer crt = none := rfl

theorem nameAtServer_errorLog (crt : StrncpyS) : Request.errorLog.nameAtServer crt = none := rfl

/-- A client with a nickname puts it into whatever carries a name. -/
theorem EchoClient.sendLine_carries (crt : StrncpyS) (c : EchoClient) (line : List UInt8)
    (now : UInt64) (results : List ℤ) (h : (c.sendLine crt line now results).nickname ≠ []) :
    ∃ t, (c.sendLine crt line now results).sent = c.sent ++ [t] ∧
      (t.request.Carries (c.sendLine crt line now results).nickname ∨
        t.request.nameAtServer crt = none) := by
  simp only [sendLine, sendPacket_eq] at h ⊢
  split_ifs at h ⊢ with hlogin hexit hcount hlog hempty
  · exact ⟨_, rfl, .inl rfl⟩
  · exact ⟨_, rfl, .inl rfl⟩
  · exact ⟨_, rfl, .inr (nameAtServer_userCount crt)⟩
  · exact ⟨_, rfl, .inr (nameAtServer_errorLog crt)⟩
  · exact absurd (List.isEmpty_iff.mp hempty) h
  · exact ⟨_, rfl, .inl rfl⟩

/-! ### What the handlers read -/

theorem nameAtServer_login (crt : StrncpyS) (nick : List UInt8) :
    (Request.login nick).nameAtServer crt = some (shortName nick) := by
  have hback : PKLoginReq.new.deserialize (PKLoginReq.serialize (.ofName nick)) = .ofName nick :=
    Packet.deserialize_serialize (PKLoginReq.ownHeader_ofName nick) _
  unfold Request.nameAtServer Request.bytes
  dsimp only
  rw [hback]
  exact congrArg some (cstr_strncpy (Chars.zero 32) nick (by decide) (by decide))

theorem nameAtServer_chatMessage (crt : StrncpyS) (data : ChatMessageData) :
    (Request.chatMessage data).nameAtServer crt = some (shortName data.sender) := by
  have hback := PKChatMessage.ofBytes_serialize (.ofData crt data)
  have hcopy : cstr (PKChatMessage.ofData crt data).pkt.sender.toList = shortName data.sender :=
    cstr_copy crt (Chars.zero 32) data.sender (by decide)
  unfold Request.nameAtServer Request.bytes
  dsimp only
  rw [hback, toData, ChatMessagePacket.cstr_sender, hcopy,
    List.take_of_length_le (length_shortName _)]

/-- The nickname in the packet of an exit. -/
theorem PKExit.cstr_ofNick (nick : List UInt8) :
    cstr (PKExit.ofNick nick).body.nickname.toList = shortName nick :=
  cstr_strncpy (Chars.zero 32) nick (by decide) (by decide)

/-- The second copy in `HandleExit` changes nothing any more. -/
theorem exitName_ofNick (h : cstr nick ≠ []) : exitName (.ofNick nick) = shortName nick := by
  have hcopy : (terminate (strncpy (Chars.zero 32) (PKExit.ofNick nick).body.nickname.toList 31)).toList =
      padded 32 (shortName nick) :=
    toList_terminate_strncpy (by decide) (PKExit.cstr_ofNick nick) (length_shortName nick) _
  have hcstr : cstr (padded 32 (shortName nick)) = shortName nick :=
    cstr_append_zeros (shortName_ne_zero nick) _
  unfold exitName
  dsimp only
  rw [hcopy, hcstr, if_neg]
  cases hname : shortName nick with
  | nil => exact absurd hname (shortName_ne_nil h)
  | cons b text => exact shortName_ne_zero nick b (by rw [hname]; exact List.mem_cons_self ..)

theorem deserialize_exit (nick : List UInt8) :
    PKExit.new.deserialize (PKExit.serialize (.ofNick nick)) = .ofNick nick :=
  Packet.deserialize_serialize (PKExit.ownHeader_ofNick nick) _

theorem nameAtServer_exit (crt : StrncpyS) (h : cstr nick ≠ []) :
    (Request.exit nick).nameAtServer crt = some (shortName nick) := by
  unfold Request.nameAtServer Request.bytes
  dsimp only
  rw [deserialize_exit, exitName_ofNick h]

/-! ### The notice of an exit -/

/-- Name and suffix fit in front of the terminator. -/
theorem cstr_message_exitNotice (req : PKExit) (hname : ∀ b ∈ exitName req, b ≠ 0)
    (hlen : (exitName req).length ≤ 31) (q : PKChatBroadcast) :
    cstr (PKChatBroadcast.deserialize q (exitNotice req)).body.message.toList =
      exitName req ++ exitSuffix := by
  have hback : PKChatBroadcast.deserialize q (exitNotice req) =
      .ofFields serverName (exitName req ++ exitSuffix) 0 := by
    unfold exitNotice PKChatBroadcast.deserialize PKChatBroadcast.serialize
    exact Packet.deserialize_serialize
      (PKChatBroadcast.ownHeader_ofFields serverName (exitName req ++ exitSuffix) 0) q
  have hsuffix : ∀ b ∈ exitSuffix, b ≠ 0 := by decide +kernel
  have htext : cstr (exitName req ++ exitSuffix) = exitName req ++ exitSuffix := by
    apply cstr_of_ne_zero
    intro b hb
    rcases List.mem_append.mp hb with hb | hb
    · exact hname b hb
    · exact hsuffix b hb
  have hfits : (exitName req ++ exitSuffix).length ≤ 256 - 1 := by
    have : exitSuffix.length = 19 := rfl
    rw [List.length_append]
    omega
  rw [hback]
  calc cstr (PKChatBroadcast.ofFields serverName (exitName req ++ exitSuffix) 0).body.message.toList
      = (cstr (exitName req ++ exitSuffix)).take (256 - 1) :=
        cstr_strncpy (Chars.zero 256) _ (by decide) (by decide)
    _ = exitName req ++ exitSuffix := by rw [htext, List.take_of_length_le hfits]

theorem isValid_exitNotice (req : PKExit) : PKChatBroadcast.isValid (exitNotice req) = true :=
  Packet.isValid_serialize
    (PKChatBroadcast.ownHeader_ofFields serverName (exitName req ++ exitSuffix) 0)

/-- The notice is what `HandleExit` makes of the packet of an exit. -/
theorem handleExit_ofNick (env : Env) (s : ℕ) (nick : List UInt8) (σ : Server) :
    let bytes := PKExit.serialize (.ofNick nick)
    let notice := exitNotice (PKExit.new.deserialize bytes)
    ∃ text, handleExit env s bytes σ =
      closeSession s (broadcast env notice (some s) (σ.announcing s text (some notice))) := by
  intro bytes notice
  have hlen : bytes.length = kHeaderSize + PKExitBody.layout.size :=
    Packet.length_serialize (PKExit.ownHeader_ofNick nick)
  refine ⟨ascii "Exit packet: session=" ++ decimal (σ.sessions s).id, ?_⟩
  unfold handleExit
  rw [if_neg hlen.not_lt]
  rfl

/-- The server knows a client by the first 31 bytes of its nickname, from whichever request it
takes the name, and announces its exit under this name, with the whole text behind it. -/
theorem one_nickname_one_name (crt : StrncpyS) (nick : List UInt8) (h : cstr nick ≠ []) :
    (∀ (c : EchoClient) line now results, (c.sendLine crt line now results).nickname = nick →
      ∃ t, (c.sendLine crt line now results).sent = c.sent ++ [t] ∧
        (t.request.Carries nick ∨ t.request.nameAtServer crt = none)) ∧
    (∀ r : Request, r.Carries nick → r.nameAtServer crt = some ((cstr nick).take 31)) ∧
    let notice := exitNotice (PKExit.new.deserialize ((Request.exit nick).bytes crt))
    (∀ env s σ, ∃ text, handleExit env s ((Request.exit nick).bytes crt) σ =
      closeSession s (broadcast env notice (some s) (σ.announcing s text (some notice)))) ∧
    PKChatBroadcast.isValid notice = true ∧ ∀ q,
      cstr (PKChatBroadcast.deserialize q notice).body.message.toList =
        (cstr nick).take 31 ++ exitSuffix := by
  refine ⟨?_, ?_, fun env s σ => handleExit_ofNick env s nick σ, isValid_exitNotice _, ?_⟩
  · intro c line now results hnick
    have hne : nick ≠ [] := by
      rintro rfl
      exact h rfl
    have hcarries := c.sendLine_carries crt line now results (by rw [hnick]; exact hne)
    rwa [hnick] at hcarries
  · intro r hr
    cases r with
    | login name => exact hr ▸ nameAtServer_login crt name
    | chatMessage data => exact hr ▸ nameAtServer_chatMessage crt data
    | exit name =>
      obtain rfl : name = nick := hr
      exact nameAtServer_exit crt h
    | userCount => exact hr.elim
    | errorLog => exact hr.elim
  · intro q
    have hname : exitName (PKExit.new.deserialize ((Request.exit nick).bytes crt)) =
        shortName nick := Option.some.inj (nameAtServer_exit crt h)
    rw [cstr_message_exitNotice _ (by rw [hname]; exact shortName_ne_zero nick)
      (by rw [hname]; exact length_shortName nick) q, hname]
    rfl

/-- One letter too many for the array: the requests lose the same one. -/
theorem one_name_of_long :
    (Request.login (List.replicate 32 65)).nameAtServer .release = some (List.replicate 31 65) ∧
      (Request.exit (List.replicate 32 65)).nameAtServer .release = some (List.replicate 31 65) := by
  have hcut : (cstr (List.replicate 32 65)).take 31 = List.replicate 31 65 := by decide
  have hnames := (one_nickname_one_name .release (List.replicate 32 65) (by decide)).2.1
  rw [hcut] at hnames
  exact ⟨hnames (.login _) rfl, hnames (.exit _) rfl⟩

end IocpChat
