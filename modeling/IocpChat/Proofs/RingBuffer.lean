import IocpChat.Lib.Runs
import IocpChat.Spec.RingBuffer

/-! The byte ring is a bounded byte queue. Each copy loop is read off its first
iteration: a chunk that does not wrap moves bytes between the caller's memory
and an end of the content, and at least one byte per iteration. -/

namespace IocpChat

open Circular

namespace RingBuffer

variable (rb : RingBuffer)

@[simp] theorem content_length : rb.content.length = rb.size := window_length ..

@[simp] theorem content_new (capacity : ℕ) : (new capacity).content = [] := rfl

theorem content_advance (k : ℕ) (hk : k ≤ rb.size) :
    (rb.advance k hk).content = rb.content.drop k := by
  simp only [content, advance, window_mod, window_drop]

/-! ### append -/

theorem appendChunk_pos {n written : ℕ} (hn : written < n) (hs : rb.size < rb.cap) :
    0 < rb.appendChunk n written := by
  have := rb.tail_lt
  simp only [appendChunk]
  omega

theorem content_appendStep {src : List UInt8} {n written : ℕ} (hn : n ≤ src.length) :
    (rb.appendStep src n written).content =
      rb.content ++ (src.drop written).take (rb.appendChunk n written) := by
  have hlen : ((src.drop written).take (rb.appendChunk n written)).length =
      rb.appendChunk n written := by
    simp only [List.length_take, List.length_drop, appendChunk]
    omega
  have hfree := rb.appendChunk_le_free n written
  have hspan : rb.appendChunk n written ≤ rb.cap - rb.tail := by simp only [appendChunk]; omega
  have htail := rb.tail_lt
  have hsize := rb.size_le
  have := window_blit rb.buf rb.cap rb.head rb.size
    ((src.drop written).take (rb.appendChunk n written)) (by omega) (by rw [← rb.tail_eq]; omega)
  rw [hlen, ← rb.tail_eq] at this
  exact this

theorem appendLoop_spec {src : List UInt8} {n : ℕ} (hn : n ≤ src.length) :
    ∀ (fuel : ℕ) (rb : RingBuffer) (written : ℕ), n - written ≤ fuel →
      (appendLoop src n fuel rb written).1 = written + min (n - written) (rb.cap - rb.size) ∧
      (appendLoop src n fuel rb written).2.cap = rb.cap ∧
      (appendLoop src n fuel rb written).2.content =
        rb.content ++ (src.drop written).take (min (n - written) (rb.cap - rb.size)) := by
  intro fuel
  induction fuel with
  | zero =>
    intro rb written hf
    simp [appendLoop, show n - written = 0 by omega]
  | succ fuel ih =>
    intro rb written hf
    unfold appendLoop
    split_ifs with hgo
    · have hpos := rb.appendChunk_pos hgo.1 hgo.2
      have hfree := rb.appendChunk_le_free n written
      have hleft : rb.appendChunk n written ≤ n - written := by simp only [appendChunk]; omega
      obtain ⟨h1, h2, h3⟩ := ih (rb.appendStep src n written) (written + rb.appendChunk n written)
        (by omega)
      -- what the later iterations store is what this one leaves
      have hrest : min (n - written) (rb.cap - rb.size) = rb.appendChunk n written +
          min (n - (written + rb.appendChunk n written))
            ((rb.appendStep src n written).cap - (rb.appendStep src n written).size) := by
        simp only [appendStep]
        omega
      refine ⟨by rw [h1, hrest, Nat.add_assoc], h2, ?_⟩
      rw [h3, content_appendStep rb hn, hrest, List.take_add, List.drop_drop, List.append_assoc]
    · have : min (n - written) (rb.cap - rb.size) = 0 := by omega
      simp [this]

theorem append_spec {src : List UInt8} {n : ℕ} (hn : n ≤ src.length) :
    (rb.append src n).1 = min n (rb.cap - rb.size) ∧ (rb.append src n).2.cap = rb.cap ∧
      (rb.append src n).2.content = rb.content ++ src.take (min n (rb.cap - rb.size)) := by
  unfold append
  split_ifs with h
  · have : min n (rb.cap - rb.size) = 0 := by simp only [writable] at h; omega
    simp [this]
  · simpa using appendLoop_spec hn n rb 0 (by omega)

/-! ### read -/

theorem readChunk_pos {len got : ℕ} (hg : got < len) (hs : 0 < rb.size) :
    0 < rb.readChunk len got := by
  have := rb.head_lt
  simp only [readChunk]
  omega

theorem slice_head {k : ℕ} (hk : k ≤ rb.size) (hspan : rb.head + k ≤ rb.cap) :
    slice rb.buf rb.head k = rb.content.take k := by
  rw [content, window_take _ _ _ hk, window_eq_slice _ hspan]

theorem readLoop_spec (len : ℕ) :
    ∀ (fuel : ℕ) (rb : RingBuffer) (got : ℕ) (dst : List UInt8), len - got ≤ fuel →
      (readLoop len fuel rb got dst).1 = got + min (len - got) rb.size ∧
      (readLoop len fuel rb got dst).2.1 = dst ++ rb.content.take (len - got) ∧
      (readLoop len fuel rb got dst).2.2.cap = rb.cap ∧
      (readLoop len fuel rb got dst).2.2.content = rb.content.drop (len - got) := by
  intro fuel
  induction fuel with
  | zero =>
    intro rb got dst hf
    simp [readLoop, show len - got = 0 by omega]
  | succ fuel ih =>
    intro rb got dst hf
    unfold readLoop
    split_ifs with hgo
    · have hpos := rb.readChunk_pos hgo.1 hgo.2
      have hsize := rb.readChunk_le_size len got
      have hleft : rb.readChunk len got ≤ len - got := by simp only [readChunk]; omega
      have hspan : rb.head + rb.readChunk len got ≤ rb.cap := by
        have := rb.head_lt
        simp only [readChunk]
        omega
      obtain ⟨h1, h2, h3, h4⟩ := ih (rb.advance (rb.readChunk len got) hsize)
        (got + rb.readChunk len got) (dst ++ slice rb.buf rb.head (rb.readChunk len got)) (by omega)
      have hrest : len - got =
          rb.readChunk len got + (len - (got + rb.readChunk len got)) := by omega
      refine ⟨?_, ?_, h3, ?_⟩
      · rw [h1]; simp only [advance]; omega
      · rw [h2, content_advance, slice_head rb hsize hspan, List.append_assoc, hrest,
          List.take_add]
      · rw [h4, content_advance, List.drop_drop, ← hrest]
    · rcases Nat.lt_or_ge got len with hg | hg
      · have hnil : rb.content = [] := List.length_eq_zero_iff.mp (by simp; omega)
        simp [hnil, show rb.size = 0 by omega]
      · simp [show len - got = 0 by omega]

theorem read_spec (len : ℕ) :
    (rb.read len).1 = min len rb.size ∧ (rb.read len).2.1 = rb.content.take len ∧
      (rb.read len).2.2.cap = rb.cap ∧ (rb.read len).2.2.content = rb.content.drop len := by
  unfold read
  split_ifs with h
  · rcases h with h | h
    · simp [h]
    · have hnil : rb.content = [] := List.length_eq_zero_iff.mp (by simpa using h)
      simp [h, hnil]
  · simpa using readLoop_spec len len rb 0 [] (by omega)

/-! ### peek and discard -/

theorem peek_spec (len : ℕ) :
    rb.peek len = if len ≤ rb.size then some (rb.content.take len) else none := by
  have hhead := rb.head_lt
  have hsize := rb.size_le
  by_cases hlen : rb.size < len
  · simp [peek, hlen]
  by_cases hwrap : rb.head + len ≤ rb.cap
  · have hfirst : min (min (rb.cap - rb.head) rb.size) len = len := by omega
    simp only [peek, hlen, hfirst, if_false, Nat.sub_self, lt_irrefl, Nat.le_of_not_lt hlen,
      if_true, slice_head rb (Nat.le_of_not_lt hlen) hwrap]
    split_ifs with h0
    · simp [h0]
    · rfl
  · -- the copy wraps: its first part ends with the storage, the rest starts at 0
    have hfirst : min (min (rb.cap - rb.head) rb.size) len = rb.cap - rb.head := by omega
    have hend : rb.head + (rb.cap - rb.head) = rb.cap := by omega
    have hremain : 0 < len - (rb.cap - rb.head) := by omega
    have h0 : len ≠ 0 := by omega
    simp only [peek, hlen, h0, hfirst, hremain, if_false, if_true, Nat.le_of_not_lt hlen, hend,
      Nat.mod_self]
    have hsplit : len = (rb.cap - rb.head) + (len - (rb.cap - rb.head)) := by omega
    rw [content, window_take _ _ _ (Nat.le_of_not_lt hlen)]
    conv_rhs => rw [hsplit, window_add, hend, ← window_mod _ _ rb.cap, Nat.mod_self]
    rw [window_eq_slice _ (by omega), window_eq_slice _ (by omega)]

theorem discard_spec (len : ℕ) :
    (rb.discard len).1 = decide (len ≤ rb.size) ∧ (rb.discard len).2.cap = rb.cap ∧
      (rb.discard len).2.content =
        if len ≤ rb.size then rb.content.drop len else rb.content := by
  unfold discard
  split_ifs with h h' h'
  · omega
  · simp [h']
  · exact ⟨by simp [h'], rfl, content_advance rb len h'⟩
  · omega

end RingBuffer

/-- The ring holds what the queue holds, in storage of the queue's bound. -/
structure RingHolds {cap : ℕ} (rb : RingBuffer) (q : BoundedQueue UInt8 cap) : Prop where
  cap_eq : rb.cap = cap
  content_eq : rb.content = q.items

theorem RingHolds.size_eq {cap : ℕ} {rb : RingBuffer} {q : BoundedQueue UInt8 cap}
    (h : RingHolds rb q) : rb.size = q.items.length := by
  rw [← h.content_eq, rb.content_length]

theorem ringHolds_call {cap : ℕ} (rb : RingBuffer) (q : BoundedQueue UInt8 cap) (c : RingCall)
    (h : RingHolds rb q) :
    (rb.call c).1 = (queueCall q c).1 ∧ RingHolds (rb.call c).2 (queueCall q c).2 := by
  have hsize := h.size_eq
  have hcap := h.cap_eq
  have hroom : q.room = rb.cap - rb.size := by rw [BoundedQueue.room, hsize, hcap]
  cases c with
  | append src n hn =>
    obtain ⟨h1, h2, h3⟩ := rb.append_spec hn
    refine ⟨by simp only [RingBuffer.call, queueCall, h1, hroom], h2.trans hcap, ?_⟩
    simp only [RingBuffer.call, queueCall, BoundedQueue.offer, h3, hroom, h.content_eq,
      List.take_take, Nat.min_comm]
  | read len =>
    obtain ⟨h1, h2, h3, h4⟩ := rb.read_spec len
    refine ⟨?_, h3.trans hcap, ?_⟩
    · simp only [RingBuffer.call, queueCall, BoundedQueue.front, h1, h2, hsize, h.content_eq]
    · simp only [RingBuffer.call, queueCall, BoundedQueue.drop, h4, h.content_eq]
  | peek len =>
    refine ⟨?_, h⟩
    simp only [RingBuffer.call, queueCall, BoundedQueue.front, rb.peek_spec, hsize, h.content_eq]
  | discard len =>
    obtain ⟨h1, h2, h3⟩ := rb.discard_spec len
    refine ⟨by simp only [RingBuffer.call, queueCall, h1, hsize], h2.trans hcap, ?_⟩
    simp only [RingBuffer.call, queueCall, h3, hsize, h.content_eq]
    split_ifs <;> rfl
  | clear => exact ⟨rfl, hcap, rfl⟩

/-- Every sequence of calls on a new ring answers as a byte queue of
`max c 1024` bytes does, and leaves the ring in the state that queue describes. -/
theorem ring_refines_queue (c : ℕ) (calls : List RingCall) :
    let rb := (Runs.serve RingBuffer.call (RingBuffer.new c) calls).2
    let q : BoundedQueue UInt8 (max c 1024) := (Runs.serve queueCall .empty calls).2
    (Runs.serve RingBuffer.call (RingBuffer.new c) calls).1 =
        (Runs.serve (@queueCall (max c 1024)) .empty calls).1 ∧
      rb.cap = max c 1024 ∧
      (rb.head < rb.cap ∧ rb.tail < rb.cap ∧ rb.size ≤ rb.cap ∧
        rb.tail = (rb.head + rb.size) % rb.cap) ∧
      rb.content = q.items ∧ rb.readable = q.items.length ∧
      rb.writable = max c 1024 - q.items.length ∧ (rb.empty = true ↔ q.items = []) := by
  have hnew : RingHolds (RingBuffer.new c) (.empty : BoundedQueue UInt8 (max c 1024)) :=
    ⟨rfl, rfl⟩
  obtain ⟨hout, hfin⟩ := Runs.serve_refines (fun rb q i h => ringHolds_call rb q i h) calls hnew
  intro rb q
  have hsize : rb.size = q.items.length := hfin.size_eq
  have hcap : rb.cap = max c 1024 := hfin.cap_eq
  refine ⟨hout, hcap, ⟨rb.head_lt, rb.tail_lt, rb.size_le, rb.tail_eq⟩, hfin.content_eq, hsize,
    by rw [RingBuffer.writable, hcap, hsize], ?_⟩
  simp [RingBuffer.empty, hsize]

end IocpChat
