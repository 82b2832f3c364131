import Mathlib.Tactic

/-! Circular stores over an arbitrary cell type. A store is a function on
indices, read modulo its capacity; copies are the contiguous ones a `memcpy`
makes. What the lemmas give is that a contiguous copy at the end of the used
window extends it, as long as there is room. -/

namespace Circular

variable {α : Type*}

/-- The `n` cells from index `p` on, read without wrapping. -/
def slice (f : ℕ → α) (p n : ℕ) : List α := (List.range n).map fun i => f (p + i)

/-- The `n` cells of a store of `cap` cells that follow `h` circularly. -/
def window (f : ℕ → α) (cap h n : ℕ) : List α := (List.range n).map fun i => f ((h + i) % cap)

/-- The store after the cells of `src` were copied to index `p` on. -/
def blit (f : ℕ → α) (p : ℕ) (src : List α) : ℕ → α :=
  fun i => if p ≤ i then (src[i - p]?).getD (f i) else f i

@[simp] theorem slice_length (f : ℕ → α) (p n : ℕ) : (slice f p n).length = n := by
  simp [slice]

@[simp] theorem window_length (f : ℕ → α) (cap h n : ℕ) : (window f cap h n).length = n := by
  simp [window]

@[simp] theorem window_zero (f : ℕ → α) (cap h : ℕ) : window f cap h 0 = [] := rfl

theorem window_mod (f : ℕ → α) (cap h n : ℕ) : window f cap (h % cap) n = window f cap h n := by
  simp [window, Nat.mod_add_mod]

theorem window_add (f : ℕ → α) (cap h m n : ℕ) :
    window f cap h (m + n) = window f cap h m ++ window f cap (h + m) n := by
  simp [window, List.range_add, Function.comp_def, Nat.add_assoc]

theorem window_take (f : ℕ → α) (cap h : ℕ) {k n : ℕ} (hk : k ≤ n) :
    (window f cap h n).take k = window f cap h k := by
  obtain ⟨d, rfl⟩ := Nat.exists_eq_add_of_le hk
  rw [window_add, List.take_left' (window_length f cap h k)]

theorem window_drop (f : ℕ → α) (cap h k n : ℕ) :
    (window f cap h n).drop k = window f cap (h + k) (n - k) := by
  rcases Nat.le_total k n with hk | hk
  · obtain ⟨d, rfl⟩ := Nat.exists_eq_add_of_le hk
    rw [window_add, List.drop_left' (window_length f cap h k), Nat.add_sub_cancel_left]
  · rw [List.drop_eq_nil_of_le (by simpa using hk), Nat.sub_eq_zero_of_le hk, window_zero]

/-- A span that ends before the store does is contiguous. -/
theorem window_eq_slice (f : ℕ → α) {cap h n : ℕ} (hn : h + n ≤ cap) :
    window f cap h n = slice f h n := by
  apply List.map_congr_left
  intro i hi
  rw [Nat.mod_eq_of_lt (by have := List.mem_range.mp hi; omega)]

/-- Two offsets below the capacity name the same cell only if they are equal. -/
theorem index_inj {cap h i j : ℕ} (hi : i < cap) (hj : j < cap)
    (he : (h + i) % cap = (h + j) % cap) : i = j := by
  have hm : i ≡ j [MOD cap] := Nat.ModEq.add_left_cancel' h he
  rwa [Nat.ModEq, Nat.mod_eq_of_lt hi, Nat.mod_eq_of_lt hj] at hm

theorem blit_of_outside (f : ℕ → α) (src : List α) {p i : ℕ}
    (h : i < p ∨ p + src.length ≤ i) : blit f p src i = f i := by
  unfold blit
  split_ifs with hp
  · rw [List.getElem?_eq_none (by omega)]; rfl
  · rfl

theorem slice_blit (f : ℕ → α) (p : ℕ) (src : List α) :
    slice (blit f p src) p src.length = src := by
  apply List.ext_getElem (by simp)
  intro i h1 h2
  simp [slice, blit, h2]

/-- Copying to the first free cell, without wrapping and within the free room,
appends to the window. -/
theorem window_blit (f : ℕ → α) (cap h n : ℕ) (src : List α) (hroom : n + src.length ≤ cap)
    (hspan : (h + n) % cap + src.length ≤ cap) :
    window (blit f ((h + n) % cap) src) cap h (n + src.length) = window f cap h n ++ src := by
  have hold : window (blit f ((h + n) % cap) src) cap h n = window f cap h n := by
    apply List.map_congr_left
    intro i hi
    have hi := List.mem_range.mp hi
    apply blit_of_outside
    by_contra hc
    push Not at hc
    -- a used cell inside the copied span would be the cell of a later offset
    obtain ⟨j, hj⟩ := Nat.exists_eq_add_of_le hc.1
    have hlt : (h + n) % cap + j < cap := by omega
    have he : (h + i) % cap = (h + (n + j)) % cap := by
      rw [hj, ← Nat.add_assoc, ← Nat.mod_add_mod (h + n), Nat.mod_eq_of_lt hlt]
    have := index_inj (by omega) (by omega) he
    omega
  have hnew : window (blit f ((h + n) % cap) src) cap (h + n) src.length = src := by
    rw [← window_mod, window_eq_slice _ hspan, slice_blit]
  rw [window_add, hold, hnew]

/-! ### Copying between a store and flat memory -/

/-- A contiguous copy between a store and flat memory. -/
structure Copy where
  store : ℕ
  flat : ℕ
  length : ℕ
  deriving DecidableEq

/-- The copies that move `k` cells between index `p` of a store of `cap` cells, read
circularly, and index `q` of flat memory. -/
def copies (cap p q k : ℕ) : List Copy :=
  if k = 0 then []
  else if k ≤ cap - p then [⟨p, q, k⟩]
  else [⟨p, q, cap - p⟩, ⟨0, q + (cap - p), k - (cap - p)⟩]

@[simp] theorem copies_zero (cap p q : ℕ) : copies cap p q 0 = [] := if_pos rfl

theorem copies_of_le {cap p q k : ℕ} (hk : 0 < k) (hend : k ≤ cap - p) :
    copies cap p q k = [⟨p, q, k⟩] := by
  rw [copies, if_neg (by omega), if_pos hend]

theorem copies_of_lt {cap p q k : ℕ} (hend : cap - p < k) :
    copies cap p q k = [⟨p, q, cap - p⟩, ⟨0, q + (cap - p), k - (cap - p)⟩] := by
  rw [copies, if_neg (by omega), if_neg (by omega)]

/-- The first copy goes as far as the store does, the others begin where it ends. -/
theorem copies_step {cap p q k : ℕ} (hp : p < cap) (hk : 0 < k) (hcap : k ≤ cap) :
    copies cap p q k = ⟨p, q, min (cap - p) k⟩ ::
      copies cap ((p + min (cap - p) k) % cap) (q + min (cap - p) k) (k - min (cap - p) k) := by
  rcases Nat.lt_or_ge (cap - p) k with hend | hend
  · rw [copies_of_lt hend, min_eq_left hend.le, Nat.add_sub_of_le hp.le, Nat.mod_self,
      copies_of_le (by omega) (by omega)]
  · rw [copies_of_le hk hend, min_eq_right hend, Nat.sub_self, copies_zero]

theorem copies_length_le (cap p q k : ℕ) : (copies cap p q k).length ≤ 2 := by
  unfold copies
  split_ifs <;> simp

theorem copies_length_le_of_lt {cap p : ℕ} (hp : p < cap) (q k : ℕ) :
    (copies cap p q k).length ≤ k := by
  unfold copies
  split_ifs with h0 hend
  · exact Nat.zero_le _
  · exact Nat.pos_of_ne_zero h0
  · change 2 ≤ k
    omega

/-- Every copy moves at least one cell, and stays in the store and in the `k` cells of the
flat memory. -/
theorem copies_bounds {cap p q k : ℕ} (hp : p < cap) (hcap : k ≤ cap) {c : Copy}
    (hc : c ∈ copies cap p q k) :
    0 < c.length ∧ c.store + c.length ≤ cap ∧ q ≤ c.flat ∧ c.flat + c.length ≤ q + k := by
  unfold copies at hc
  split_ifs at hc with h0 hend
  · cases hc
  · rw [List.mem_singleton] at hc
    subst hc
    dsimp only
    omega
  · rw [List.mem_cons, List.mem_singleton] at hc
    rcases hc with rfl | rfl
    · dsimp only
      omega
    · dsimp only
      omega

/-- A second copy ends in front of where the first one begins. -/
theorem copies_second {cap p q k : ℕ} (hp : p < cap) (hcap : k ≤ cap) {c d : Copy}
    (h : copies cap p q k = [c, d]) : d.store + d.length ≤ p := by
  rcases Nat.lt_or_ge (cap - p) k with hend | hend
  · rw [copies_of_lt hend] at h
    obtain ⟨-, rfl, -⟩ : _ ∧ _ ∧ True := by simpa using h
    dsimp only
    omega
  · rcases Nat.eq_zero_or_pos k with rfl | hk
    · simp at h
    · simp [copies_of_le hk hend] at h

/-- A loop that copies between stores and flat memory: in a state, `left` cells are to be
copied between index `pos` of the store and index `flat`, and the `chunk` of one iteration is
as many of them as stand in front of the end of the store. -/
structure CopyLoop (σ : Type*) where
  cap : σ → ℕ
  pos : σ → ℕ
  flat : σ → ℕ
  left : σ → ℕ
  chunk : σ → ℕ
  next : σ → σ
  pos_lt : ∀ s, pos s < cap s
  left_le : ∀ s, left s ≤ cap s
  chunk_eq : ∀ s, chunk s = min (cap s - pos s) (left s)
  cap_next : ∀ s, cap (next s) = cap s
  pos_next : ∀ s, pos (next s) = (pos s + chunk s) % cap s
  flat_next : ∀ s, flat (next s) = flat s + chunk s
  left_next : ∀ s, left (next s) = left s - chunk s

namespace CopyLoop

variable {σ : Type*} (loop : CopyLoop σ)

/-- The copies of the iterations; `none` if `fuel` iterations do not end the loop. -/
def run : ℕ → σ → Option (List Copy)
  | 0, s => if 0 < loop.left s then none else some []
  | fuel + 1, s =>
    if 0 < loop.left s then
      (run fuel (loop.next s)).map (⟨loop.pos s, loop.flat s, loop.chunk s⟩ :: ·)
    else some []

/-- The copies that are to be made in a state. -/
def copies (s : σ) : List Copy := Circular.copies (loop.cap s) (loop.pos s) (loop.flat s) (loop.left s)

variable {loop} {s : σ}

theorem copies_of_left (hs : 0 < loop.left s) : loop.copies s =
    ⟨loop.pos s, loop.flat s, loop.chunk s⟩ :: loop.copies (loop.next s) := by
  unfold copies
  rw [loop.cap_next, loop.pos_next, loop.flat_next, loop.left_next, loop.chunk_eq]
  exact copies_step (loop.pos_lt s) hs (loop.left_le s)

theorem copies_of_not_left (hs : ¬ 0 < loop.left s) : loop.copies s = [] := by
  unfold copies
  rw [Nat.eq_zero_of_not_pos hs, copies_zero]

/-- As many iterations as there are copies are enough for the loop. -/
theorem run_eq {fuel : ℕ} (hfuel : (loop.copies s).length ≤ fuel) :
    loop.run fuel s = some (loop.copies s) := by
  induction fuel generalizing s with
  | zero =>
    have hnil := List.length_eq_zero_iff.mp (Nat.le_zero.mp hfuel)
    have hstop : ¬ 0 < loop.left s := by
      intro hs
      rw [copies_of_left hs] at hnil
      cases hnil
    unfold run
    rw [if_neg hstop, hnil]
  | succ fuel ih =>
    unfold run
    split_ifs with hs
    · rw [copies_of_left hs] at hfuel ⊢
      rw [ih (Nat.le_of_succ_le_succ hfuel), Option.map_some]
    · rw [copies_of_not_left hs]

end CopyLoop

/-- Copying out of the store gives its cells in order. -/
theorem flatMap_copies (f : ℕ → α) {cap p k : ℕ} (q : ℕ) (hp : p < cap) (hcap : k ≤ cap) :
    ((copies cap p q k).flatMap fun c => slice f c.store c.length) = window f cap p k := by
  rcases Nat.eq_zero_or_pos k with rfl | hk
  · rw [copies_zero, window_zero, List.flatMap_nil]
  rcases Nat.lt_or_ge (cap - p) k with hend | hend
  · have hwrap : window f cap (p + (cap - p)) (k - (cap - p)) = slice f 0 (k - (cap - p)) := by
      rw [Nat.add_sub_of_le hp.le, ← window_mod, Nat.mod_self, window_eq_slice _ (by omega)]
    rw [copies_of_lt hend, ← Nat.add_sub_of_le hend.le, window_add, hwrap,
      window_eq_slice _ (by omega), Nat.add_sub_of_le hend.le]
    simp
  · rw [copies_of_le hk hend, window_eq_slice _ (by omega)]
    simp

end Circular
