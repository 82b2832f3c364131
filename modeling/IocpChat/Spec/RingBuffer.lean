import IocpChat.Lib.BoundedQueue
import IocpChat.Lib.Circular

/-! The byte ring of `RingBuffer.h`. The storage is a function on the indices
below `cap` (`buf_.size()`), and the relation between `head`, `tail` and `size`
that the constructor establishes is carried by the type. -/

namespace IocpChat

open Circular

structure RingBuffer where
  buf : ℕ → UInt8
  cap : ℕ
  head : ℕ
  tail : ℕ
  size : ℕ
  head_lt : head < cap
  size_le : size ≤ cap
  tail_eq : tail = (head + size) % cap

namespace RingBuffer

/-- The constructor: at least 1024 bytes of storage. -/
def new (capacity : ℕ) : RingBuffer where
  buf _ := 0
  cap := max capacity 1024
  head := 0
  tail := 0
  size := 0
  head_lt := by omega
  size_le := Nat.zero_le _
  tail_eq := by simp

variable (rb : RingBuffer)

theorem cap_pos : 0 < rb.cap := Nat.zero_lt_of_lt rb.head_lt

theorem tail_lt : rb.tail < rb.cap := rb.tail_eq ▸ Nat.mod_lt _ rb.cap_pos

def capacity : ℕ := rb.cap
def readable : ℕ := rb.size
def writable : ℕ := rb.cap - rb.size
def empty : Bool := rb.size == 0

def clear : RingBuffer :=
  { rb with head := 0, tail := 0, size := 0, head_lt := rb.cap_pos, size_le := Nat.zero_le _,
            tail_eq := by simp }

/-- `chunk` in one iteration of `append`'s loop. -/
def appendChunk (n written : ℕ) : ℕ :=
  let tillEnd := rb.cap - rb.tail
  let free := rb.cap - rb.size
  let span := min tillEnd free
  min span (n - written)

theorem appendChunk_le_free (n written : ℕ) : rb.appendChunk n written ≤ rb.cap - rb.size := by
  simp only [appendChunk]; omega

/-- The body of `append`'s loop. -/
def appendStep (src : List UInt8) (n written : ℕ) : RingBuffer :=
  let chunk := rb.appendChunk n written
  { rb with
    buf := blit rb.buf rb.tail ((src.drop written).take chunk)
    tail := (rb.tail + chunk) % rb.cap
    size := rb.size + chunk
    size_le := by
      have h : chunk ≤ rb.cap - rb.size := rb.appendChunk_le_free n written
      have := rb.size_le
      omega
    tail_eq := by rw [rb.tail_eq, Nat.mod_add_mod, Nat.add_assoc] }

/-- The loop of `append`, which runs while bytes are left and the ring has room. -/
def appendLoop (src : List UInt8) (n : ℕ) : ℕ → RingBuffer → ℕ → ℕ × RingBuffer
  | 0, rb, written => (written, rb)
  | fuel + 1, rb, written =>
    if written < n ∧ rb.size < rb.cap then
      appendLoop src n fuel (rb.appendStep src n written) (written + rb.appendChunk n written)
    else (written, rb)

/-- `append(src, n)`: how many bytes were stored, and the ring. Every iteration
stores a byte, so `n` of them are enough. -/
def append (src : List UInt8) (n : ℕ) : ℕ × RingBuffer :=
  if n = 0 ∨ rb.writable = 0 then (0, rb) else appendLoop src n n rb 0

/-- `chunk` in one iteration of `read`'s loop. -/
def readChunk (len got : ℕ) : ℕ :=
  let tillEnd := rb.cap - rb.head
  let span := min tillEnd rb.size
  min span (len - got)

theorem readChunk_le_size (len got : ℕ) : rb.readChunk len got ≤ rb.size := by
  simp only [readChunk]; omega

/-- The ring after its first `k` bytes were consumed. -/
def advance (k : ℕ) (hk : k ≤ rb.size) : RingBuffer :=
  { rb with
    head := (rb.head + k) % rb.cap
    size := rb.size - k
    head_lt := Nat.mod_lt _ rb.cap_pos
    size_le := by have := rb.size_le; omega
    tail_eq := by rw [rb.tail_eq, Nat.mod_add_mod, Nat.add_assoc, Nat.add_sub_cancel' hk] }

/-- The loop of `read`; `dst` holds the bytes stored so far. -/
def readLoop (len : ℕ) : ℕ → RingBuffer → ℕ → List UInt8 → ℕ × List UInt8 × RingBuffer
  | 0, rb, got, dst => (got, dst, rb)
  | fuel + 1, rb, got, dst =>
    if got < len ∧ 0 < rb.size then
      let chunk := rb.readChunk len got
      readLoop len fuel (rb.advance chunk (rb.readChunk_le_size len got)) (got + chunk)
        (dst ++ slice rb.buf rb.head chunk)
    else (got, dst, rb)

/-- `read(dst, len)`: how many bytes were consumed, the bytes stored in `dst`,
and the ring. -/
def read (len : ℕ) : ℕ × List UInt8 × RingBuffer :=
  if len = 0 ∨ rb.size = 0 then (0, [], rb) else readLoop len len rb 0 []

/-- `peek(dst, len)`: the bytes stored in `dst`, or `none` for `false`. -/
def peek (len : ℕ) : Option (List UInt8) :=
  if rb.size < len then none
  else if len = 0 then some []
  else
    let firstSpan := min (rb.cap - rb.head) rb.size
    let first := min firstSpan len
    let h := (rb.head + first) % rb.cap
    let remain := len - first
    if 0 < remain then some (slice rb.buf rb.head first ++ slice rb.buf h remain)
    else some (slice rb.buf rb.head first)

/-- `discard(len)`: whether the bytes were there, and the ring. -/
def discard (len : ℕ) : Bool × RingBuffer :=
  if h : rb.size < len then (false, rb) else (true, rb.advance len (Nat.le_of_not_lt h))

/-! The `memcpy` calls of the copying functions. In a loop they are counted with the
iterations; `none` is a loop that `fuel` iterations do not end. -/

def appendLoopCopies (src : List UInt8) (n : ℕ) : ℕ → RingBuffer → ℕ → Option (List Copy)
  | 0, rb, written => if written < n ∧ rb.size < rb.cap then none else some []
  | fuel + 1, rb, written =>
    if written < n ∧ rb.size < rb.cap then
      let chunk := rb.appendChunk n written
      (appendLoopCopies src n fuel (rb.appendStep src n written) (written + chunk)).map
        (⟨rb.tail, written, chunk⟩ :: ·)
    else some []

def appendCopies (fuel : ℕ) (src : List UInt8) (n : ℕ) : Option (List Copy) :=
  if n = 0 ∨ rb.writable = 0 then some [] else appendLoopCopies src n fuel rb 0

def readLoopCopies (len : ℕ) : ℕ → RingBuffer → ℕ → Option (List Copy)
  | 0, rb, got => if got < len ∧ 0 < rb.size then none else some []
  | fuel + 1, rb, got =>
    if got < len ∧ 0 < rb.size then
      let chunk := rb.readChunk len got
      (readLoopCopies len fuel (rb.advance chunk (rb.readChunk_le_size len got))
        (got + chunk)).map (⟨rb.head, got, chunk⟩ :: ·)
    else some []

def readCopies (fuel len : ℕ) : Option (List Copy) :=
  if len = 0 ∨ rb.size = 0 then some [] else readLoopCopies len fuel rb 0

def peekCopies (len : ℕ) : List Copy :=
  if rb.size < len then []
  else if len = 0 then []
  else
    let firstSpan := min (rb.cap - rb.head) rb.size
    let first := min firstSpan len
    let h := (rb.head + first) % rb.cap
    let remain := len - first
    if 0 < remain then [⟨rb.head, 0, first⟩, ⟨h, first, remain⟩] else [⟨rb.head, 0, first⟩]

/-- The bytes in the ring, oldest first. -/
def content : List UInt8 := window rb.buf rb.cap rb.head rb.size

end RingBuffer

/-- A call of the ring's interface. The memory behind `src` has the `n` bytes the
caller announces. -/
inductive RingCall
  | append (src : List UInt8) (n : ℕ) (h : n ≤ src.length)
  | read (len : ℕ)
  | peek (len : ℕ)
  | discard (len : ℕ)
  | clear

/-- What a call returns and stores in the caller's memory. -/
inductive RingReply
  | append (written : ℕ)
  | read (got : ℕ) (dst : List UInt8)
  | peek (dst : Option (List UInt8))
  | discard (ok : Bool)
  | clear
  deriving DecidableEq

def RingBuffer.call (rb : RingBuffer) : RingCall → RingReply × RingBuffer
  | .append src n _ => (.append (rb.append src n).1, (rb.append src n).2)
  | .read len => (.read (rb.read len).1 (rb.read len).2.1, (rb.read len).2.2)
  | .peek len => (.peek (rb.peek len), rb)
  | .discard len => (.discard (rb.discard len).1, (rb.discard len).2)
  | .clear => (.clear, rb.clear)

/-- The same call on a byte queue of bounded length: what the ring is for. -/
def queueCall {cap : ℕ} (q : BoundedQueue UInt8 cap) :
    RingCall → RingReply × BoundedQueue UInt8 cap
  | .append src n _ => (.append (min n q.room), q.offer (src.take n))
  | .read len => (.read (min len q.items.length) (q.front len), q.drop len)
  | .peek len => (.peek (if len ≤ q.items.length then some (q.front len) else none), q)
  | .discard len =>
    (.discard (len ≤ q.items.length), if len ≤ q.items.length then q.drop len else q)
  | .clear => (.clear, .empty)

end IocpChat
