import Mathlib.Tactic
import Mathlib.Data.Fintype.BigOperators

/-! Sums that change in one place, and threads that are counted by where they are. -/

/-- Two sums that differ in one place. -/
theorem sum_change {ι : Type*} [DecidableEq ι] {s : Finset ι} {f g : ι → ℕ} {i : ι} (hi : i ∈ s)
    (h : ∀ j, j ≠ i → g j = f j) : ∑ j ∈ s, g j + f i = ∑ j ∈ s, f j + g i := by
  have hrest : ∑ j ∈ s.erase i, g j = ∑ j ∈ s.erase i, f j :=
    Finset.sum_congr rfl fun j hj => h j (Finset.ne_of_mem_erase hj)
  have hf : f i + ∑ j ∈ s.erase i, f j = ∑ j ∈ s, f j := Finset.add_sum_erase s f hi
  have hg : g i + ∑ j ∈ s.erase i, g j = ∑ j ∈ s, g j := Finset.add_sum_erase s g hi
  omega

namespace Threads

variable {W P : Type*} [Fintype W]

/-- Each thread counts as much as the place where it is. -/
def tally (weight : P → ℕ) (pc : W → P) : ℕ := ∑ w, weight (pc w)

variable {weight : P → ℕ} {pc : W → P}

theorem tally_update [DecidableEq W] (weight : P → ℕ) (pc : W → P) (w : W) (p : P) :
    tally weight (Function.update pc w p) + weight (pc w) = tally weight pc + weight p := by
  have hchange := sum_change (f := fun v => weight (pc v))
    (g := fun v => weight (Function.update pc w p v)) (Finset.mem_univ w) fun v hv => by
      rw [Function.update_of_ne hv]
  rwa [Function.update_self] at hchange

theorem le_tally (weight : P → ℕ) (pc : W → P) (w : W) : weight (pc w) ≤ tally weight pc :=
  Finset.single_le_sum (f := fun v => weight (pc v)) (fun _ _ => Nat.zero_le _) (Finset.mem_univ w)

theorem add_le_tally [DecidableEq W] (weight : P → ℕ) (pc : W → P) {v w : W} (h : v ≠ w) :
    weight (pc v) + weight (pc w) ≤ tally weight pc := by
  rw [← Finset.sum_pair (f := fun u => weight (pc u)) h]
  exact Finset.sum_le_sum_of_subset (Finset.subset_univ _)

theorem tally_le {bound : ℕ} (h : ∀ p, weight p ≤ bound) :
    tally weight pc ≤ Fintype.card W * bound := by
  have hsum : ∑ w, weight (pc w) ≤ ∑ _w : W, bound := Finset.sum_le_sum fun w _ => h (pc w)
  rwa [Finset.sum_const, smul_eq_mul, Finset.card_univ] at hsum

end Threads
