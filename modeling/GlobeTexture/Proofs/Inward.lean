import GlobeTexture.Walk

/-! # Walks end on the canvas

A walk inward from a cell of the canvas stays on the canvas, and it ends at an accepted cell or in the
middle. -/

namespace GlobeTexture

theorem stepTowards_lt {v target n : Nat} (hv : v < n) (ht : target < n) : stepTowards v target < n := by
  unfold stepTowards
  split
  · omega
  · split <;> omega

theorem distance_stepTowards (v target : Nat) :
    stepTowards v target - target + (target - stepTowards v target) = v - target + (target - v) - 1 := by
  unfold stepTowards
  split
  · omega
  · split <;> omega

namespace Cell

variable {accept : Cell → Bool} {target : Cell} {k : Canvas}

theorem eq_of_steps_eq_zero {c d : Cell} (h : c.steps d = 0) : c = d := by
  obtain ⟨col, row⟩ := c
  obtain ⟨col', row'⟩ := d
  simp only [steps] at h
  obtain rfl : col = col' := by omega
  obtain rfl : row = row' := by omega
  rfl

theorem steps_stepTowards_le (c : Cell) {n : Nat} (h : c.steps target ≤ n + 1) :
    (c.stepTowards target).steps target ≤ n := by
  simp only [steps, stepTowards, distance_stepTowards] at h ⊢
  omega

theorem walk_mem (ht : target ∈ k) (n : Nat) {c : Cell} (hc : c ∈ k) : walk accept target n c ∈ k := by
  induction n generalizing c with
  | zero => exact hc
  | succ n ih =>
    rw [walk]
    split
    · exact hc
    · exact ih ⟨stepTowards_lt hc.1 ht.1, stepTowards_lt hc.2 ht.2⟩

theorem walk_accepted_or_target (n : Nat) {c : Cell} (h : c.steps target ≤ n) :
    accept (walk accept target n c) = true ∨ walk accept target n c = target := by
  induction n generalizing c with
  | zero => exact Or.inr (eq_of_steps_eq_zero (Nat.le_zero.mp h))
  | succ n ih =>
    rw [walk]
    split
    · rename_i hc
      exact Or.inl hc
    · exact ih (steps_stepTowards_le c h)

end Cell

namespace Canvas

variable {k : Canvas} {accept : Cell → Bool} {c : Cell}

theorem center_mem (hc : c ∈ k) : k.center ∈ k := by
  obtain ⟨hcol, hrow⟩ := hc
  exact ⟨Nat.div_lt_self (by omega) (by decide), Nat.div_lt_self (by omega) (by decide)⟩

theorem inward_mem (hc : c ∈ k) : k.inward accept c ∈ k :=
  Cell.walk_mem (center_mem hc) _ hc

theorem inward_accepted_or_center : accept (k.inward accept c) = true ∨ k.inward accept c = k.center :=
  Cell.walk_accepted_or_target _ (Nat.le_refl _)

end Canvas

end GlobeTexture
