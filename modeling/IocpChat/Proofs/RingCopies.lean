import IocpChat.Proofs.RingBuffer

/-! The `memcpy` calls of the ring are the copies between a circular store and flat memory:
from `tail` for `append`, from `head` for `read` and `peek`. So they stay in both memories,
and a loop makes at most two of them. -/

namespace IocpChat

open Circular

namespace RingBuffer

variable (rb : RingBuffer)

/-! ### append -/

theorem appendChunk_eq (n written : ℕ) :
    rb.appendChunk n written = min (rb.cap - rb.tail) (min (n - written) (rb.cap - rb.size)) := by
  simp only [appendChunk]
  omega

theorem appendLeft_le (n written : ℕ) : min (n - written) (rb.cap - rb.size) ≤ rb.cap := by
  omega

/-- What an iteration leaves is what the next ones copy. -/
theorem appendLeft_step (src : List UInt8) (n written : ℕ) :
    min (n - (written + rb.appendChunk n written))
        ((rb.appendStep src n written).cap - (rb.appendStep src n written).size) =
      min (n - written) (rb.cap - rb.size) - rb.appendChunk n written := by
  simp only [appendStep]
  omega

/-- The loop of `append`, at a ring and the number of bytes written. -/
def appendCopying (src : List UInt8) (n : ℕ) : CopyLoop (RingBuffer × ℕ) where
  cap s := s.1.cap
  pos s := s.1.tail
  flat s := s.2
  left s := min (n - s.2) (s.1.cap - s.1.size)
  chunk s := s.1.appendChunk n s.2
  next s := (s.1.appendStep src n s.2, s.2 + s.1.appendChunk n s.2)
  pos_lt s := s.1.tail_lt
  left_le s := s.1.appendLeft_le n s.2
  chunk_eq s := s.1.appendChunk_eq n s.2
  cap_next _ := rfl
  pos_next _ := rfl
  flat_next _ := rfl
  left_next s := s.1.appendLeft_step src n s.2

theorem appendLoopCopies_eq (src : List UInt8) (n fuel : ℕ) (rb : RingBuffer) (written : ℕ) :
    appendLoopCopies src n fuel rb written = (appendCopying src n).run fuel (rb, written) := by
  have hgo (rb : RingBuffer) (written : ℕ) : (written < n ∧ rb.size < rb.cap) =
      (0 < (appendCopying src n).left (rb, written)) := by
    simp only [appendCopying, eq_iff_iff]
    omega
  induction fuel generalizing rb written with
  | zero =>
    unfold appendLoopCopies CopyLoop.run
    simp only [hgo]
  | succ fuel ih =>
    unfold appendLoopCopies CopyLoop.run
    simp only [hgo, ih]
    rfl

theorem appendCopies_eq {fuel : ℕ} (hfuel : 2 ≤ fuel) (src : List UInt8) (n : ℕ) :
    rb.appendCopies fuel src n = some (copies rb.cap rb.tail 0 (min n (rb.cap - rb.size))) := by
  unfold appendCopies
  split_ifs with h
  · have hnone : min n (rb.cap - rb.size) = 0 := by
      simp only [writable] at h
      omega
    rw [hnone, copies_zero]
  · rw [appendLoopCopies_eq, CopyLoop.run_eq ((copies_length_le ..).trans hfuel)]
    simp only [CopyLoop.copies, appendCopying, Nat.sub_zero]

/-- The storage after a copy into the ring. -/
def store (src : List UInt8) (f : ℕ → UInt8) (c : Copy) : ℕ → UInt8 :=
  blit f c.store ((src.drop c.flat).take c.length)

theorem appendLoop_buf {src : List UInt8} {n fuel rounds : ℕ} {rb : RingBuffer} {written : ℕ}
    {cs : List Copy} (hcs : appendLoopCopies src n rounds rb written = some cs)
    (hfuel : cs.length ≤ fuel) :
    (appendLoop src n fuel rb written).2.buf = cs.foldl (store src) rb.buf := by
  induction rounds generalizing rb written cs fuel with
  | zero =>
    unfold appendLoopCopies at hcs
    split_ifs at hcs with hgo
    obtain rfl := Option.some.inj hcs
    cases fuel with
    | zero => rfl
    | succ fuel =>
      unfold appendLoop
      rw [if_neg hgo]
      rfl
  | succ rounds ih =>
    unfold appendLoopCopies at hcs
    split_ifs at hcs with hgo
    · obtain ⟨rest, hrest, rfl⟩ := Option.map_eq_some_iff.mp hcs
      obtain ⟨fuel, rfl⟩ := Nat.exists_eq_succ_of_ne_zero (Nat.ne_zero_of_lt hfuel)
      unfold appendLoop
      rw [if_pos hgo]
      exact ih hrest (Nat.le_of_succ_le_succ hfuel)
    · obtain rfl := Option.some.inj hcs
      cases fuel with
      | zero => rfl
      | succ fuel =>
        unfold appendLoop
        rw [if_neg hgo]
        rfl

/-- The storage behind `append` is what its copies make of it. -/
theorem append_copies (src : List UInt8) (n : ℕ) :
    (rb.appendCopies 2 src n).map (·.foldl (store src) rb.buf) = some (rb.append src n).2.buf := by
  have hcs := appendCopies_eq rb le_rfl src n
  rw [hcs, Option.map_some]
  unfold appendCopies at hcs
  unfold append
  split_ifs with h
  · rw [if_pos h] at hcs
    rw [← Option.some.inj hcs]
    rfl
  · rw [if_neg h] at hcs
    have hlen : (copies rb.cap rb.tail 0 (min n (rb.cap - rb.size))).length ≤ n :=
      (copies_length_le_of_lt rb.tail_lt ..).trans (min_le_left ..)
    rw [appendLoop_buf hcs hlen]

/-! ### read -/

theorem readChunk_eq (len got : ℕ) :
    rb.readChunk len got = min (rb.cap - rb.head) (min (len - got) rb.size) := by
  simp only [readChunk]
  omega

theorem readLeft_le (len got : ℕ) : min (len - got) rb.size ≤ rb.cap :=
  (min_le_right ..).trans rb.size_le

theorem readLeft_step (len got : ℕ) :
    min (len - (got + rb.readChunk len got))
        (rb.advance (rb.readChunk len got) (rb.readChunk_le_size len got)).size =
      min (len - got) rb.size - rb.readChunk len got := by
  simp only [advance]
  omega

/-- The loop of `read`, at a ring and the number of bytes read. -/
def readCopying (len : ℕ) : CopyLoop (RingBuffer × ℕ) where
  cap s := s.1.cap
  pos s := s.1.head
  flat s := s.2
  left s := min (len - s.2) s.1.size
  chunk s := s.1.readChunk len s.2
  next s := (s.1.advance (s.1.readChunk len s.2) (s.1.readChunk_le_size len s.2),
    s.2 + s.1.readChunk len s.2)
  pos_lt s := s.1.head_lt
  left_le s := s.1.readLeft_le len s.2
  chunk_eq s := s.1.readChunk_eq len s.2
  cap_next _ := rfl
  pos_next _ := rfl
  flat_next _ := rfl
  left_next s := s.1.readLeft_step len s.2

theorem readLoopCopies_eq (len fuel : ℕ) (rb : RingBuffer) (got : ℕ) :
    readLoopCopies len fuel rb got = (readCopying len).run fuel (rb, got) := by
  have hgo (rb : RingBuffer) (got : ℕ) : (got < len ∧ 0 < rb.size) =
      (0 < (readCopying len).left (rb, got)) := by
    simp only [readCopying, eq_iff_iff]
    omega
  induction fuel generalizing rb got with
  | zero =>
    unfold readLoopCopies CopyLoop.run
    simp only [hgo]
  | succ fuel ih =>
    unfold readLoopCopies CopyLoop.run
    simp only [hgo, ih]
    rfl

theorem readCopies_eq {fuel : ℕ} (hfuel : 2 ≤ fuel) (len : ℕ) :
    rb.readCopies fuel len = some (copies rb.cap rb.head 0 (min len rb.size)) := by
  unfold readCopies
  split_ifs with h
  · have hnone : min len rb.size = 0 := by omega
    rw [hnone, copies_zero]
  · rw [readLoopCopies_eq, CopyLoop.run_eq ((copies_length_le ..).trans hfuel)]
    simp only [CopyLoop.copies, readCopying, Nat.sub_zero]

/-! ### peek -/

theorem peekCopies_eq {len : ℕ} (hlen : len ≤ rb.size) :
    rb.peekCopies len = copies rb.cap rb.head 0 len := by
  have hhead := rb.head_lt
  have hsize := rb.size_le
  unfold peekCopies
  rw [if_neg hlen.not_gt]
  by_cases h0 : len = 0
  · rw [if_pos h0, h0, copies_zero]
  rw [if_neg h0]
  rcases Nat.lt_or_ge (rb.cap - rb.head) len with hend | hend
  · have hfirst : min (min (rb.cap - rb.head) rb.size) len = rb.cap - rb.head := by omega
    simp only [hfirst, Nat.add_sub_of_le hhead.le, Nat.mod_self]
    rw [if_pos (by omega), copies_of_lt hend, Nat.zero_add]
  · have hfirst : min (min (rb.cap - rb.head) rb.size) len = len := by omega
    simp only [hfirst, Nat.sub_self, lt_irrefl, if_false]
    rw [copies_of_le (Nat.pos_of_ne_zero h0) hend]

theorem peekCopies_of_lt {len : ℕ} (hlen : rb.size < len) : rb.peekCopies len = [] := if_pos hlen

/-- The bytes `peek` stores are those its copies read. -/
theorem peek_copies {len : ℕ} (hlen : len ≤ rb.size) :
    rb.peek len = some ((rb.peekCopies len).flatMap fun c => slice rb.buf c.store c.length) := by
  rw [peek_spec, if_pos hlen, peekCopies_eq rb hlen,
    flatMap_copies _ _ rb.head_lt (hlen.trans rb.size_le), content, window_take _ _ _ hlen]

/-- The bytes `read` stores are those its copies read. -/
theorem read_copies (len : ℕ) :
    (rb.readCopies 2 len).map (·.flatMap fun c => slice rb.buf c.store c.length) =
      some (rb.read len).2.1 := by
  have hmin : min len rb.size ≤ rb.size := min_le_right ..
  rw [readCopies_eq rb le_rfl, Option.map_some, flatMap_copies _ _ rb.head_lt (hmin.trans rb.size_le),
    (rb.read_spec len).2.1, content, ← window_take _ _ _ hmin, ← content, ← rb.content_length,
    ← List.take_take, List.take_length]

end RingBuffer

/-- Whatever was called before: the copies of `append`, `read` and `peek` stay in the storage
and in the caller's memory, the loops end after two iterations of at least a byte each, and
what `peek` copies from the beginning of the storage ends in front of `head`. -/
theorem ring_copies_fit (capacity : ℕ) (calls : List RingCall) (src : List UInt8) (n len : ℕ) :
    let rb := (Runs.serve RingBuffer.call (.new capacity) calls).2
    (∃ cs, rb.appendCopies 2 src n = some cs ∧ cs.length ≤ 2 ∧
      ∀ c ∈ cs, 0 < c.length ∧ c.store + c.length ≤ rb.capacity ∧ c.flat + c.length ≤ n) ∧
    (∃ cs, rb.readCopies 2 len = some cs ∧ cs.length ≤ 2 ∧
      ∀ c ∈ cs, 0 < c.length ∧ c.store + c.length ≤ rb.capacity ∧ c.flat + c.length ≤ len) ∧
    (∀ c ∈ rb.peekCopies len, c.store + c.length ≤ rb.capacity ∧ c.flat + c.length ≤ len) ∧
    ∀ c d, rb.peekCopies len = [c, d] → d.store + d.length ≤ rb.head := by
  intro rb
  have hsize := rb.size_le
  refine ⟨?_, ?_, ?_, ?_⟩
  · refine ⟨_, rb.appendCopies_eq le_rfl src n, copies_length_le .., ?_⟩
    intro c hc
    obtain ⟨hpos, hstore, -, hflat⟩ := copies_bounds rb.tail_lt (by omega) hc
    exact ⟨hpos, hstore, by omega⟩
  · refine ⟨_, rb.readCopies_eq le_rfl len, copies_length_le .., ?_⟩
    intro c hc
    obtain ⟨hpos, hstore, -, hflat⟩ := copies_bounds rb.head_lt (by omega) hc
    exact ⟨hpos, hstore, by omega⟩
  · intro c hc
    rcases Nat.lt_or_ge rb.size len with hlen | hlen
    · rw [rb.peekCopies_of_lt hlen] at hc
      cases hc
    · rw [rb.peekCopies_eq hlen] at hc
      obtain ⟨-, hstore, -, hflat⟩ := copies_bounds rb.head_lt (hlen.trans hsize) hc
      exact ⟨hstore, by omega⟩
  · intro c d hcd
    rcases Nat.lt_or_ge rb.size len with hlen | hlen
    · rw [rb.peekCopies_of_lt hlen] at hcd
      cases hcd
    · rw [rb.peekCopies_eq hlen] at hcd
      exact copies_second rb.head_lt (hlen.trans hsize) hcd

end IocpChat
