import Mathlib.Data.List.TakeWhile
import IocpChat.Spec.Packets

/-! Headers, bodies and C strings come back as they were written. -/

namespace IocpChat

open LittleEndian

@[simp] theorem PacketHeader.length_toBytes (h : PacketHeader) :
    h.toBytes.length = kHeaderSize := by
  simp [PacketHeader.toBytes, kHeaderSize]

theorem PacketHeader.ofBytes_append (h : PacketHeader) (rest : List UInt8) :
    PacketHeader.ofBytes (h.toBytes ++ rest) = h := by
  have hsize := h.size.toNat_lt
  have hid := h.id.toNat_lt
  have h2 : (leBytes 2 h.size.toNat).length = 2 := leBytes_length 2 _
  have h2' : (leBytes 2 h.id.toNat).length = 2 := leBytes_length 2 _
  simp only [PacketHeader.toBytes, PacketHeader.ofBytes, List.append_assoc, List.take_left' h2,
    List.drop_left' h2, List.take_left' h2', leNat_leBytes]
  rw [Nat.mod_eq_of_lt (by omega), Nat.mod_eq_of_lt (by omega), UInt16.ofNat_toNat,
    UInt16.ofNat_toNat]

/-- Copying over all of a zeroed vector. -/
theorem memcpyAt_zeros {src : List UInt8} {n : ℕ} (h : src.length = n) :
    memcpyAt (List.replicate n 0) 0 src = src := by
  subst h
  rw [memcpyAt, List.take_zero, List.nil_append, Nat.zero_add, List.length_replicate,
    List.drop_eq_nil_of_le (List.length_replicate ..).le, List.append_nil, List.take_length]

/-! ### Packets with their own header -/

section Packet

variable {β : Type} {t : PacketType} {fmt : Packed β}

theorem Packet.serialize_eq {p : Packet β} (hp : p.OwnHeader t fmt) :
    Packet.serialize fmt p = p.header.toBytes ++ fmt.toBytes p.body := by
  have hbody := fmt.length_toBytes p.body
  have hhead := p.header.length_toBytes
  unfold Packet.serialize
  rw [hp.2, ← hhead]
  have h1 : memcpyAt (List.replicate (p.header.toBytes.length + fmt.size) 0) 0 p.header.toBytes =
      p.header.toBytes ++ List.replicate fmt.size 0 := by
    simp [memcpyAt]
  rw [h1, memcpyAt, List.take_left' rfl, List.drop_eq_nil_of_le (by simp [hbody]),
    List.append_nil, List.take_of_length_le (by simp [hbody])]

theorem Packet.length_serialize {p : Packet β} (hp : p.OwnHeader t fmt) :
    (Packet.serialize fmt p).length = kHeaderSize + fmt.size := by
  rw [Packet.serialize_eq hp, List.length_append, p.header.length_toBytes, fmt.length_toBytes]

theorem Packet.header_serialize_append {p : Packet β} (hp : p.OwnHeader t fmt)
    (rest : List UInt8) : PacketHeader.ofBytes (Packet.serialize fmt p ++ rest) = p.header := by
  rw [Packet.serialize_eq hp, List.append_assoc, PacketHeader.ofBytes_append]

theorem Packet.header_serialize {p : Packet β} (hp : p.OwnHeader t fmt) :
    PacketHeader.ofBytes (Packet.serialize fmt p) = p.header := by
  have hhead := Packet.header_serialize_append hp []
  rwa [List.append_nil] at hhead

theorem Packet.isValid_serialize_append {p : Packet β} (hp : p.OwnHeader t fmt)
    (rest : List UInt8) : Packet.isValid t fmt (Packet.serialize fmt p ++ rest) = true := by
  have hlen := Packet.length_serialize hp
  unfold Packet.isValid
  rw [if_neg (by rw [List.length_append, hlen]; omega)]
  simp [Packet.header_serialize_append hp, hp.1, hp.2]

theorem Packet.isValid_serialize {p : Packet β} (hp : p.OwnHeader t fmt) :
    Packet.isValid t fmt (Packet.serialize fmt p) = true := by
  have hvalid := Packet.isValid_serialize_append hp []
  rwa [List.append_nil] at hvalid

/-- Decoding reads back what was encoded, whatever follows in the buffer. -/
theorem Packet.deserialize_serialize_append {p : Packet β} (hp : p.OwnHeader t fmt)
    (q : Packet β) (rest : List UInt8) :
    Packet.deserialize t fmt q (Packet.serialize fmt p ++ rest) = p := by
  unfold Packet.deserialize
  rw [if_pos (Packet.isValid_serialize_append hp rest), Packet.header_serialize_append hp,
    Packet.serialize_eq hp, List.append_assoc, List.drop_left' p.header.length_toBytes,
    fmt.ofBytes_append]

theorem Packet.deserialize_serialize {p : Packet β} (hp : p.OwnHeader t fmt) (q : Packet β) :
    Packet.deserialize t fmt q (Packet.serialize fmt p) = p := by
  have hback := Packet.deserialize_serialize_append hp q []
  rwa [List.append_nil] at hback

end Packet

theorem PKLoginAck.ownHeader_ofFields (sid : UInt64) (ok : Bool) (why : List UInt8)
    (curUsers : Int32) :
    (PKLoginAck.ofFields sid ok why curUsers).OwnHeader .loginAck PKLoginAckBody.layout :=
  ⟨rfl, rfl⟩

theorem PKChatBroadcast.ownHeader_ofFields (nick msg : List UInt8) (ts : UInt64) :
    (PKChatBroadcast.ofFields nick msg ts).OwnHeader .chatBroadcast PKChatBroadcastBody.layout :=
  ⟨rfl, rfl⟩

theorem PKUserCountAck.ownHeader_ofCount (c : Int32) :
    (PKUserCountAck.ofCount c).OwnHeader .userCountAck PKUserCountAckBody.layout :=
  ⟨rfl, rfl⟩

/-! ### C strings -/

theorem cstr_ne_zero (mem : List UInt8) : ∀ b ∈ cstr mem, b ≠ 0 := by
  intro b hb
  simpa using List.mem_takeWhile_imp hb

/-- A padded text. -/
theorem cstr_append_zeros {s : List UInt8} (hs : ∀ b ∈ s, b ≠ 0) (k : ℕ) :
    cstr (s ++ List.replicate k 0) = s := by
  have hpad : cstr (List.replicate k 0) = [] := by
    cases k <;> simp [cstr, List.replicate_succ]
  rw [cstr, List.takeWhile_append_of_pos (by simpa using hs)]
  rw [cstr] at hpad
  rw [hpad, List.append_nil]

/-- A cut text, terminated where it was cut. -/
theorem cstr_take (mem rest : List UInt8) (m : ℕ) :
    cstr (mem.take m ++ 0 :: rest) = (cstr mem).take m := by
  induction mem generalizing m with
  | nil => simp [cstr]
  | cons b mem ih =>
    cases m with
    | zero => simp [cstr]
    | succ m =>
      by_cases hb : b = 0
      · simp [cstr, hb]
      · have hrest := ih m
        simp only [cstr] at hrest ⊢
        rw [List.take_succ_cons, List.cons_append, List.takeWhile_cons_of_pos (by simpa using hb),
          hrest, List.takeWhile_cons_of_pos (by simpa using hb), List.take_succ_cons]

/-- A text that is terminated, whatever is behind the terminator. -/
theorem cstr_of_prefix {text mem : List UInt8} (htext : ∀ b ∈ text, b ≠ 0)
    (h : text ++ [0] <+: mem) : cstr mem = text := by
  obtain ⟨rest, rfl⟩ := h
  have hself := cstr_append_zeros htext 0
  rw [List.replicate_zero, List.append_nil] at hself
  have hcut := cstr_take text rest text.length
  rw [List.take_length, hself, List.take_length] at hcut
  rw [List.append_assoc, List.singleton_append, hcut]

theorem toList_terminate {n : ℕ} (hn : 0 < n) (v : Chars n) :
    (terminate v).toList = v.toList.take (n - 1) ++ [0] := by
  have hlen := v.toList_length
  change v.toList.set (n - 1) 0 = _
  rw [List.set_eq_take_append_cons_drop, if_pos (by omega), List.drop_eq_nil_of_le (by omega)]

/-- The text of an array that was terminated. -/
theorem cstr_terminate {n : ℕ} (hn : 0 < n) (v : Chars n) (rest : List UInt8) :
    cstr ((terminate v).toList ++ rest) = (cstr v.toList).take (n - 1) := by
  rw [toList_terminate hn, List.append_assoc, List.singleton_append, cstr_take]

/-- What a copy puts in front of the last cell. -/
theorem take_strncpy {n count : ℕ} {dst : Chars n} {src : List UInt8} (hcount : n - 1 ≤ count) :
    (strncpy dst src count).toList.take (n - 1) =
      (cstr src ++ List.replicate count 0).take (n - 1) := by
  change (List.take n _).take (n - 1) = _
  rw [List.take_take, min_eq_left (Nat.sub_le n 1), List.take_append_of_le_length,
    List.take_take, min_eq_left hcount]
  simp only [List.length_take, List.length_append, List.length_replicate]
  omega

/-- A terminated copy reads back as the source, cut in front of the last cell. -/
theorem cstr_terminate_strncpy {n count : ℕ} (dst : Chars n) (src rest : List UInt8)
    (hn : 0 < n) (hcount : n - 1 ≤ count) :
    cstr ((terminate (strncpy dst src count)).toList ++ rest) = (cstr src).take (n - 1) := by
  rw [toList_terminate hn, take_strncpy hcount, List.append_assoc, List.singleton_append, cstr_take,
    cstr_append_zeros (cstr_ne_zero src)]

end IocpChat
