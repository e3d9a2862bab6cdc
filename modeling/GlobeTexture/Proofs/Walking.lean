import GlobeTexture.Proofs.Inward
import Mathlib.Order.Interval.Set.UnorderedInterval
import Mathlib.Order.Lattice.Nat

/-! # Where a walk ends

After `n` steps towards a target each coordinate has moved by `n`, or by its distance if that is less. A walk ends at the
first of these places that is accepted or is the target, and the target is reached after as many steps as the larger of
the distances along the axes. Whether a walk goes on depends on the place alone, so that it ends by itself and no bound on
the number of steps takes part in it. A coordinate only moves where there is a word to move to. -/

namespace GlobeTexture

/-- The difference, if it is a word. -/
def Word.sub? (a b : Nat) : Option Nat :=
  if b ≤ a then some (a - b) else none

/-- One step from `v` towards `target`, if it stays within the words. -/
def stepTowards? (v target : Nat) : Option Nat :=
  if v < target then Word.add? v 1 else if target < v then Word.sub? v 1 else some v

/-- `v` moved towards `target` by `n`, or by the distance if that is less. -/
def moveTowards (v target n : Nat) : Nat :=
  if v ≤ target then v + min n (target - v) else v - min n (v - target)

theorem stepTowards?_eq {v target : Nat} (ht : target < Word.limit) :
    stepTowards? v target = some (stepTowards v target) := by
  unfold stepTowards? stepTowards
  split
  · rw [Word.add?_eq_some_iff]
    omega
  · split
    · exact if_pos (by omega)
    · rfl

theorem stepTowards_self (v : Nat) : stepTowards v v = v := by
  simp [stepTowards]

@[simp] theorem moveTowards_zero (v target : Nat) : moveTowards v target 0 = v := by
  simp [moveTowards]

theorem moveTowards_succ (v target n : Nat) :
    moveTowards v target (n + 1) = moveTowards (stepTowards v target) target n := by
  grind [moveTowards, stepTowards]

theorem moveTowards_of_le {v target n : Nat} (h : v - target + (target - v) ≤ n) : moveTowards v target n = target := by
  unfold moveTowards
  split <;> omega

theorem moveTowards_mem_uIcc (v target n : Nat) : moveTowards v target n ∈ Set.uIcc v target := by
  rw [Set.mem_uIcc]
  unfold moveTowards
  split <;> omega

namespace Cell

/-- One step towards `target` along each axis, if both stay within the words. -/
def stepTowards? (c target : Cell) : Option Cell := do
  let col ← GlobeTexture.stepTowards? c.col target.col
  let row ← GlobeTexture.stepTowards? c.row target.row
  return ⟨col, row⟩

/-- The cell moved towards `target` by `n` along each axis, or by the distance along it if that is less. -/
def moveTowards (c target : Cell) (n : Nat) : Cell :=
  ⟨GlobeTexture.moveTowards c.col target.col n, GlobeTexture.moveTowards c.row target.row n⟩

/-- A walk in words: it stops at an accepted cell and at the target, and makes a step at every other cell. That the walk
    from `c` ends at `d` after `n` steps is `Walks accept target c n d`. -/
inductive Walks (accept : Cell → Bool) (target : Cell) : Cell → Nat → Cell → Prop
  | stop {c : Cell} (h : accept c = true ∨ c = target) : Walks accept target c 0 c
  | step {c d e : Cell} {n : Nat} (h : ¬(accept c = true ∨ c = target)) (hstep : c.stepTowards? target = some d)
      (rest : Walks accept target d n e) : Walks accept target c (n + 1) e

variable {accept : Cell → Bool} {target : Cell}

theorem stepTowards?_eq (hcol : target.col < Word.limit) (hrow : target.row < Word.limit) (c : Cell) :
    c.stepTowards? target = some (c.stepTowards target) := by
  simp [stepTowards?, GlobeTexture.stepTowards?_eq hcol, GlobeTexture.stepTowards?_eq hrow, stepTowards]

@[simp] theorem moveTowards_zero (c target : Cell) : c.moveTowards target 0 = c := by
  simp [moveTowards]

theorem moveTowards_succ (c target : Cell) (n : Nat) :
    c.moveTowards target (n + 1) = (c.stepTowards target).moveTowards target n := by
  simp only [moveTowards, stepTowards, GlobeTexture.moveTowards_succ]

theorem moveTowards_of_steps_le {c : Cell} {n : Nat} (h : c.steps target ≤ n) : c.moveTowards target n = target := by
  obtain ⟨hcol, hrow⟩ := Nat.max_le.mp h
  rw [moveTowards, GlobeTexture.moveTowards_of_le hcol, GlobeTexture.moveTowards_of_le hrow]

theorem walk_of_stopped {c : Cell} (h : accept c = true ∨ c = target) (n : Nat) : walk accept target n c = c := by
  induction n with
  | zero => rfl
  | succ n ih =>
    rw [walk]
    split
    · rfl
    · -- A cell that is not accepted is the target itself, and a step from there leads nowhere else.
      obtain rfl : c = target := h.resolve_left ‹_›
      rwa [stepTowards, stepTowards_self, stepTowards_self]

/-- The numbers of steps after which the way from `c` to the target is at an accepted cell or at the target. -/
def stops (accept : Cell → Bool) (target c : Cell) : Set Nat :=
  {n | accept (c.moveTowards target n) = true ∨ c.moveTowards target n = target}

theorem zero_mem_stops_iff {c : Cell} : 0 ∈ stops accept target c ↔ accept c = true ∨ c = target := by
  simp [stops]

theorem succ_mem_stops_iff {c : Cell} {n : Nat} :
    n + 1 ∈ stops accept target c ↔ n ∈ stops accept target (c.stepTowards target) := by
  simp only [stops, Set.mem_ofPred_eq, moveTowards_succ]

theorem isLeast_stops_zero {c : Cell} (h : accept c = true ∨ c = target) : IsLeast (stops accept target c) 0 :=
  ⟨zero_mem_stops_iff.mpr h, fun _ _ => Nat.zero_le _⟩

theorem isLeast_stops_succ {c : Cell} (h : ¬(accept c = true ∨ c = target)) {n : Nat} :
    IsLeast (stops accept target c) (n + 1) ↔ IsLeast (stops accept target (c.stepTowards target)) n := by
  refine and_congr succ_mem_stops_iff ⟨fun hlow j hj => ?_, fun hlow j hj => ?_⟩
  · exact Nat.le_of_succ_le_succ (hlow (succ_mem_stops_iff.mpr hj))
  · cases j with
    | zero => exact absurd (zero_mem_stops_iff.mp hj) h
    | succ j => exact Nat.succ_le_succ (hlow (succ_mem_stops_iff.mp hj))

theorem exists_isLeast_stops (accept : Cell → Bool) (n : Nat) {c : Cell} (h : c.steps target ≤ n) :
    ∃ m, IsLeast (stops accept target c) m ∧ walk accept target n c = c.moveTowards target m := by
  induction n generalizing c with
  | zero =>
    have hstop : accept c = true ∨ c = target := Or.inr (eq_of_steps_eq_zero (Nat.le_zero.mp h))
    exact ⟨0, isLeast_stops_zero hstop, (moveTowards_zero c target).symm⟩
  | succ n ih =>
    by_cases hstop : accept c = true ∨ c = target
    · exact ⟨0, isLeast_stops_zero hstop, (walk_of_stopped hstop _).trans (moveTowards_zero c target).symm⟩
    · obtain ⟨m, hleast, hwalk⟩ := ih (steps_stepTowards_le c h)
      refine ⟨m + 1, (isLeast_stops_succ hstop).mpr hleast, ?_⟩
      rw [walk, if_neg fun haccept => hstop (Or.inl haccept), hwalk, moveTowards_succ]

theorem walks_of_isLeast (hcol : target.col < Word.limit) (hrow : target.row < Word.limit) {c : Cell} {m : Nat}
    (h : IsLeast (stops accept target c) m) : Walks accept target c m (c.moveTowards target m) := by
  induction m generalizing c with
  | zero =>
    rw [moveTowards_zero]
    exact .stop (zero_mem_stops_iff.mp h.1)
  | succ m ih =>
    have hgoes : ¬(accept c = true ∨ c = target) := fun hstop =>
      Nat.not_succ_le_zero m (h.2 (zero_mem_stops_iff.mpr hstop))
    rw [moveTowards_succ]
    exact .step hgoes (stepTowards?_eq hcol hrow c) (ih ((isLeast_stops_succ hgoes).mp h))

end Cell

/-- The way inward from a cell, on the canvas or off it, ends after the least number of steps that leads to an accepted cell
    or to the middle. There are at most as many as the larger of the distances to the middle, and none of them leaves the
    words. So the end is accepted or the middle, lies between the cell and the middle, is on the canvas if the cell is,
    and is its own end. -/
theorem Canvas.inward_first_on_way (k : Canvas) (accept : Cell → Bool) (c : Cell) :
    (∃ m, IsLeast {n | accept (c.moveTowards k.center n) = true ∨ c.moveTowards k.center n = k.center} m ∧
      k.inward accept c = c.moveTowards k.center m ∧
      m ≤ max ((c.col : Int) - k.center.col).natAbs ((c.row : Int) - k.center.row).natAbs ∧
      (k.width < Word.limit → k.height < Word.limit → Cell.Walks accept k.center c m (k.inward accept c))) ∧
    (accept (k.inward accept c) = true ∨ k.inward accept c = k.center) ∧
    (k.inward accept c).col ∈ Set.uIcc c.col k.center.col ∧
    (k.inward accept c).row ∈ Set.uIcc c.row k.center.row ∧
    (c ∈ k → k.inward accept c ∈ k) ∧
    k.inward accept (k.inward accept c) = k.inward accept c := by
  obtain ⟨m, hleast, heq⟩ := Cell.exists_isLeast_stops accept _ (Nat.le_refl (c.steps k.center))
  refine ⟨⟨m, hleast, heq, ?_, fun hw hh => ?_⟩, inward_accepted_or_center, ?_, ?_, inward_mem, ?_⟩
  · have hle : m ≤ c.steps k.center := hleast.2 (Or.inr (Cell.moveTowards_of_steps_le (Nat.le_refl _)))
    unfold Cell.steps at hle
    omega
  · rw [inward, heq]
    exact Cell.walks_of_isLeast (Nat.lt_of_le_of_lt (Nat.div_le_self _ _) hw)
      (Nat.lt_of_le_of_lt (Nat.div_le_self _ _) hh) hleast
  · rw [inward, heq]
    exact moveTowards_mem_uIcc _ _ _
  · rw [inward, heq]
    exact moveTowards_mem_uIcc _ _ _
  · exact Cell.walk_of_stopped inward_accepted_or_center _

/-- From beyond the right edge the way leads to the accepted column beside the middle, and from a corner, on
    whose way nothing is accepted, to the middle. -/
theorem Canvas.inward_first_on_way_column :
    let k : Canvas := ⟨5, 5⟩
    let accept : Cell → Bool := fun c => c.col == 3
    (∃ m ≤ 4, Cell.Walks accept k.center ⟨6, 1⟩ m ⟨3, 2⟩) ∧ ⟨0, 4⟩ ∈ k ∧ k.inward accept ⟨0, 4⟩ = ⟨2, 2⟩ ∧
      k.inward accept ⟨0, 4⟩ ∈ k := by
  intro k accept
  have hend : k.inward accept ⟨6, 1⟩ = ⟨3, 2⟩ := by decide
  obtain ⟨⟨m, -, -, hle, hwalks⟩, -⟩ := Canvas.inward_first_on_way k accept ⟨6, 1⟩
  obtain ⟨-, -, -, -, hmem, -⟩ := Canvas.inward_first_on_way k accept ⟨0, 4⟩
  exact ⟨⟨m, Nat.le_trans hle (by decide), hend ▸ hwalks (by decide) (by decide)⟩, by decide, by decide, hmem (by decide)⟩

end GlobeTexture
