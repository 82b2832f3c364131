import Mathlib.Tactic

/-! Things that lie on a shelf or are held by one worker each. What a worker holds is read off
its program counter, so that it need not be written down anywhere else. -/

namespace Custody

/-- Where a thing is; `held w p` if worker `w` has it and is at `p`. -/
inductive Place (W P S : Type*)
  | on (shelf : S)
  | held (w : W) (p : P)

variable {W P S ι : Type*} {holds : P → Option ι} {place : ι → Place W P S} {pc : W → P}

/-- Every worker holds what its program counter says, and nothing else is held. -/
def Agrees (holds : P → Option ι) (place : ι → Place W P S) (pc : W → P) : Prop :=
  ∀ i w p, place i = .held w p ↔ pc w = p ∧ holds p = some i

theorem Agrees.place_eq (h : Agrees holds place pc) {w : W} {i : ι} (hw : holds (pc w) = some i) :
    place i = .held w (pc w) := (h i w (pc w)).mpr ⟨rfl, hw⟩

/-- No two workers hold the same thing. -/
theorem Agrees.alone (h : Agrees holds place pc) {v w : W} {i : ι} (hv : holds (pc v) = some i)
    (hw : holds (pc w) = some i) : v = w := by
  have heq := (h.place_eq hv).symm.trans (h.place_eq hw)
  exact (Place.held.inj heq).1

variable [DecidableEq W]

/-- A worker that holds nothing goes on without anything. -/
theorem Agrees.pass (h : Agrees holds place pc) {w : W} {q : P} (hw : holds (pc w) = none)
    (hq : holds q = none) : Agrees holds place (Function.update pc w q) := by
  intro j v p
  by_cases hv : v = w
  · subst hv
    rw [Function.update_self]
    constructor
    · intro heq
      obtain ⟨rfl, hp⟩ := (h j v p).mp heq
      rw [hw] at hp
      contradiction
    · rintro ⟨rfl, hp⟩
      rw [hq] at hp
      contradiction
  · rw [Function.update_of_ne hv]
    exact h j v p

variable [DecidableEq ι]

/-- A worker goes on with what it holds, or takes something from a shelf. -/
theorem Agrees.hold (h : Agrees holds place pc) {w : W} {q : P} {i : ι}
    (hw : holds (pc w) = some i ∨ holds (pc w) = none ∧ ∃ a, place i = .on a)
    (hq : holds q = some i) :
    Agrees holds (Function.update place i (.held w q)) (Function.update pc w q) := by
  intro j v p
  by_cases hj : j = i <;> by_cases hv : v = w
  · subst hj hv
    rw [Function.update_self, Function.update_self]
    constructor
    · intro heq
      obtain rfl := (Place.held.inj heq).2
      exact ⟨rfl, hq⟩
    · rintro ⟨rfl, -⟩
      rfl
  · subst hj
    rw [Function.update_self, Function.update_of_ne hv]
    constructor
    · intro heq
      exact absurd (Place.held.inj heq).1.symm hv
    · -- another worker would have held it before
      intro hother
      have hplace := (h j v p).mpr hother
      rcases hw with hw | ⟨-, a, ha⟩
      · rw [h.place_eq hw] at hplace
        exact absurd (Place.held.inj hplace).1.symm hv
      · rw [ha] at hplace
        contradiction
  · subst hv
    rw [Function.update_of_ne hj, Function.update_self]
    constructor
    · intro heq
      obtain ⟨rfl, hp⟩ := (h j v p).mp heq
      rcases hw with hw | ⟨hw, -⟩
      · exact absurd (Option.some.inj (hp.symm.trans hw)) hj
      · rw [hw] at hp
        contradiction
    · rintro ⟨rfl, hp⟩
      exact absurd (Option.some.inj (hp.symm.trans hq)) hj
  · rw [Function.update_of_ne hj, Function.update_of_ne hv]
    exact h j v p

/-- A worker puts what it holds on a shelf. -/
theorem Agrees.put (h : Agrees holds place pc) {w : W} {q : P} {i : ι} (hw : holds (pc w) = some i)
    (hq : holds q = none) (a : S) :
    Agrees holds (Function.update place i (.on a)) (Function.update pc w q) := by
  intro j v p
  by_cases hj : j = i
  · subst hj
    rw [Function.update_self]
    refine ⟨nofun, ?_⟩
    rintro ⟨rfl, hp⟩
    by_cases hv : v = w
    · subst hv
      rw [Function.update_self, hq] at hp
      contradiction
    · rw [Function.update_of_ne hv] at hp
      exact absurd (h.alone hp hw) hv
  · rw [Function.update_of_ne hj]
    by_cases hv : v = w
    · subst hv
      rw [Function.update_self]
      constructor
      · intro heq
        obtain ⟨rfl, hp⟩ := (h j v p).mp heq
        exact absurd (Option.some.inj (hp.symm.trans hw)) hj
      · rintro ⟨rfl, hp⟩
        rw [hq] at hp
        contradiction
    · rw [Function.update_of_ne hv]
      exact h j v p

end Custody
