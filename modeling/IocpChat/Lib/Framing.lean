import Mathlib.Tactic

/-! Framed streams. A framing looks at what is left of a stream and says that
it needs more, that the stream is bad, or how long the first frame is; what it
says about a bad stream or a complete frame does not change when more of the
stream is known. For such a framing, parsing piece by piece and keeping the
unparsed rest gives what parsing everything at once gives. -/

namespace Framed

inductive Verdict
  | more
  | bad
  | frame (n : ℕ)
  deriving DecidableEq

structure Framing (α : Type*) where
  verdict : List α → Verdict
  frame_pos : ∀ {xs n}, verdict xs = .frame n → 0 < n
  frame_le : ∀ {xs n}, verdict xs = .frame n → n ≤ xs.length
  bad_stable : ∀ {xs}, verdict xs = .bad → ∀ ys, verdict (xs ++ ys) = .bad
  frame_stable : ∀ {xs n}, verdict xs = .frame n → ∀ ys, verdict (xs ++ ys) = .frame n

/-- The frames of a stream, what is left behind them, and whether that is bad. -/
structure Parse (α : Type*) where
  frames : List (List α)
  rest : List α
  bad : Bool
  deriving DecidableEq

/-- Put frames in front of what was parsed behind them. -/
def Parse.after {α : Type*} (fs : List (List α)) (p : Parse α) : Parse α :=
  { p with frames := fs ++ p.frames }

variable {α : Type*} (F : Framing α)

def parseFuel : ℕ → List α → Parse α
  | 0, xs => ⟨[], xs, false⟩
  | fuel + 1, xs =>
    match F.verdict xs with
    | .more => ⟨[], xs, false⟩
    | .bad => ⟨[], xs, true⟩
    | .frame n => (parseFuel fuel (xs.drop n)).after [xs.take n]

/-- Parse a stream. A frame is not empty, so the fuel is never used up. -/
def parse (xs : List α) : Parse α := parseFuel F (xs.length + 1) xs

theorem parseFuel_eq (fuel fuel' : ℕ) (xs : List α) (h : xs.length < fuel)
    (h' : xs.length < fuel') : parseFuel F fuel xs = parseFuel F fuel' xs := by
  induction fuel generalizing fuel' xs with
  | zero => omega
  | succ fuel ih =>
    obtain ⟨fuel', rfl⟩ := Nat.exists_eq_succ_of_ne_zero (by omega : fuel' ≠ 0)
    cases hv : F.verdict xs with
    | more => simp only [parseFuel, hv]
    | bad => simp only [parseFuel, hv]
    | frame n =>
      have hpos := F.frame_pos hv
      have hle := F.frame_le hv
      have hlen : (xs.drop n).length + n = xs.length := by simp only [List.length_drop]; omega
      simp only [parseFuel, hv, ih fuel' (xs.drop n) (by omega) (by omega)]

theorem parse_more {xs : List α} (h : F.verdict xs = .more) : parse F xs = ⟨[], xs, false⟩ := by
  simp only [parse, parseFuel, h]

theorem parse_bad {xs : List α} (h : F.verdict xs = .bad) : parse F xs = ⟨[], xs, true⟩ := by
  simp only [parse, parseFuel, h]

theorem parse_frame {xs : List α} {n : ℕ} (h : F.verdict xs = .frame n) :
    parse F xs = (parse F (xs.drop n)).after [xs.take n] := by
  have hpos := F.frame_pos h
  have hle := F.frame_le h
  have hlen : (xs.drop n).length + n = xs.length := by simp only [List.length_drop]; omega
  have hfuel := parseFuel_eq F xs.length ((xs.drop n).length + 1) (xs.drop n) (by omega) (by omega)
  simp only [parse, parseFuel, h, hfuel]

/-- A piece of a stream that is a frame of its own is the first frame. -/
theorem parse_piece {xs : List α} (h : F.verdict xs = .frame xs.length) (ys : List α) :
    parse F (xs ++ ys) = (parse F ys).after [xs] := by
  rw [parse_frame F (F.frame_stable h ys), List.drop_left, List.take_left]

/-- The three ways a parse can begin, as an induction on the stream. -/
theorem parse_induction {P : List α → Prop} (hmore : ∀ xs, F.verdict xs = .more → P xs)
    (hbad : ∀ xs, F.verdict xs = .bad → P xs)
    (hframe : ∀ xs n, F.verdict xs = .frame n → P (xs.drop n) → P xs) (xs : List α) : P xs := by
  induction hl : xs.length using Nat.strong_induction_on generalizing xs with
  | _ l ih =>
    cases hv : F.verdict xs with
    | more => exact hmore xs hv
    | bad => exact hbad xs hv
    | frame n =>
      have hpos := F.frame_pos hv
      have hle := F.frame_le hv
      exact hframe xs n hv (ih _ (by simp only [List.length_drop]; omega) _ rfl)

/-- Nothing is lost, duplicated or reordered. -/
theorem parse_flatten (xs : List α) : (parse F xs).frames.flatten ++ (parse F xs).rest = xs := by
  induction xs using parse_induction F with
  | hmore xs h => simp [parse_more F h]
  | hbad xs h => simp [parse_bad F h]
  | hframe xs n h ih =>
    rw [parse_frame F h]
    simp only [Parse.after, List.singleton_append, List.flatten_cons, List.append_assoc, ih,
      List.take_append_drop]

theorem parse_rest_more {xs : List α} (h : (parse F xs).bad = false) :
    F.verdict (parse F xs).rest = .more := by
  induction xs using parse_induction F with
  | hmore xs hv => simpa [parse_more F hv] using hv
  | hbad xs hv => simp [parse_bad F hv] at h
  | hframe xs n hv ih =>
    rw [parse_frame F hv] at h ⊢
    exact ih h

/-- Parsing a longer stream continues from the rest of the shorter one. -/
theorem parse_append (xs ys : List α) :
    parse F (xs ++ ys) =
      if (parse F xs).bad then ⟨(parse F xs).frames, (parse F xs).rest ++ ys, true⟩
      else (parse F ((parse F xs).rest ++ ys)).after (parse F xs).frames := by
  induction xs using parse_induction F with
  | hmore xs h => simp [parse_more F h, Parse.after]
  | hbad xs h => simp [parse_bad F h, parse_bad F (F.bad_stable h ys)]
  | hframe xs n h ih =>
    have hle := F.frame_le h
    rw [parse_frame F h, parse_frame F (F.frame_stable h ys),
      List.drop_append_of_le_length hle, List.take_append_of_le_length hle, ih]
    cases hb : (parse F (xs.drop n)).bad <;> simp [Parse.after, hb]

theorem parse_append_frames (xs ys : List α) :
    (parse F xs).frames <+: (parse F (xs ++ ys)).frames := by
  rw [parse_append]
  split_ifs
  · exact List.prefix_refl _
  · exact List.prefix_append _ _

end Framed
