import IocpChat.Lib.Framing
import IocpChat.Lib.LittleEndian
import IocpChat.Spec.RingBuffer

/-! The packet header of `PacketDef.h` and `PacketFramer::Pop`, with the stream
format both sides agree on. -/

namespace IocpChat

open LittleEndian Framed

/-- `PacketHeader`: four packed bytes. -/
structure PacketHeader where
  size : UInt16
  id : UInt16
  deriving DecidableEq

/-- `sizeof(PacketHeader)`, also `PacketFramer::kHeaderSize`. -/
def kHeaderSize : ℕ := 4

def kMaxPacket : ℕ := 32 * 1024

def PacketHeader.toBytes (h : PacketHeader) : List UInt8 :=
  leBytes 2 h.size.toNat ++ leBytes 2 h.id.toNat

/-- The header a `memcpy` of the first four bytes gives. -/
def PacketHeader.ofBytes (bs : List UInt8) : PacketHeader where
  size := UInt16.ofNat (leNat (bs.take 2))
  id := UInt16.ofNat (leNat ((bs.drop 2).take 2))

/-- `PacketFramer::Result` -/
inductive PopResult
  | ok
  | needMore
  | malformed
  deriving DecidableEq

/-- `out.resize(n)` -/
def resize (out : List UInt8) (n : ℕ) : List UInt8 :=
  out.take n ++ List.replicate (n - out.length) 0

/-- `PacketFramer::Pop(rb, out)`: the outcome, the ring and the vector. -/
def pop (rb : RingBuffer) (out : List UInt8) : PopResult × RingBuffer × List UInt8 :=
  if rb.readable < kHeaderSize then (.needMore, rb, out)
  else
    match rb.peek kHeaderSize with
    | none => (.needMore, rb, out)
    | some bs =>
      let size := (PacketHeader.ofBytes bs).size.toNat
      if size < kHeaderSize ∨ kMaxPacket < size then (.malformed, rb, out)
      else if rb.readable < size then (.needMore, rb, out)
      else
        let (got, dst, rb') := rb.read size
        let out' := dst ++ (resize out size).drop got
        if got ≠ size then (.malformed, rb', out') else (.ok, rb', out')

/-- What the first bytes of a stream announce. -/
def packetVerdict (bytes : List UInt8) : Verdict :=
  if bytes.length < 4 then .more
  else
    let size := leNat (bytes.take 2)
    if size < 4 ∨ 32768 < size then .bad
    else if bytes.length < size then .more
    else .frame size

/-- The stream format: packets that announce their own size. -/
def packetFraming : Framing UInt8 where
  verdict := packetVerdict
  frame_pos {bytes n} h := by
    simp only [packetVerdict] at h
    split_ifs at h
    simp only [Verdict.frame.injEq] at h
    omega
  frame_le {bytes n} h := by
    simp only [packetVerdict] at h
    split_ifs at h
    simp only [Verdict.frame.injEq] at h
    omega
  bad_stable {bytes} h more := by
    simp only [packetVerdict] at h ⊢
    split_ifs at h with h4 hs
    rw [List.take_append_of_le_length (by omega), if_pos hs, if_neg (by simp; omega)]
  frame_stable {bytes n} h more := by
    simp only [packetVerdict] at h ⊢
    split_ifs at h with h4 hs hl
    rw [List.take_append_of_le_length (by omega), if_neg hs, if_neg (by simp; omega),
      if_neg (by simp; omega), h]

/-- The reference parse of a stream into packets. -/
def packets (bytes : List UInt8) : Parse UInt8 := parse packetFraming bytes

/-- The size that the first bytes in the ring announce. -/
def RingBuffer.announced (rb : RingBuffer) : ℕ := (PacketHeader.ofBytes rb.content).size.toNat

/-- `Pop` takes a whole packet or nothing. -/
structure AllOrNothing (rb : RingBuffer) (out : List UInt8)
    (popped : PopResult × RingBuffer × List UInt8) : Prop where
  kept : popped.1 ≠ .ok → popped.2.1.content = rb.content ∧ popped.2.2 = out
  malformed : popped.1 = .malformed ↔
    kHeaderSize ≤ rb.readable ∧ (rb.announced < kHeaderSize ∨ kMaxPacket < rb.announced)
  needMore : popped.1 = .needMore ↔ rb.readable < kHeaderSize ∨
    (kHeaderSize ≤ rb.announced ∧ rb.announced ≤ kMaxPacket ∧ rb.readable < rb.announced)
  whole : popped.1 = .ok → popped.2.2 = rb.content.take rb.announced ∧
    (PacketHeader.ofBytes popped.2.2).size.toNat = popped.2.2.length ∧
    popped.2.2.length = rb.announced ∧ popped.2.1.content = rb.content.drop rb.announced

end IocpChat
