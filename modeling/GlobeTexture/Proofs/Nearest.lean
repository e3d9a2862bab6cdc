import GlobeTexture.Nearest

/-! # Nearest cells are on the canvas

Where there is a nearest cell, it lies on the canvas; and there is one for every position, whatever floats it
is made of, as soon as the canvas has a cell and its sides are signed words. -/

namespace GlobeTexture

theorem Word.signed_of_lt {n : Nat} (h : n < signedLimit) : signed n = n := by
  simp only [signedLimit] at h
  rw [signed, limit, Int.bmod_eq_of_le_mul_two] <;> omega

theorem Word.signed_le (n : Nat) : signed n ≤ n := by
  rw [signed, Int.bmod_def, limit]
  split <;> omega

/-- Along a side of positive length, the index is the floor of the position, moved into the side. -/
theorem nearestIndex?_eq {len : Nat} (h0 : 0 < len) (h : len < Word.signedLimit) (v : Float) :
    nearestIndex? v len = some (min (Word.floor v).toNat (len - 1)) := by
  have hpred : Word.pred? (Word.signed len) = some ((len : Int) - 1) := by
    rw [Word.signed_of_lt h, Word.pred?, if_pos (by omega)]
  simp only [nearestIndex?, hpred, Option.bind_eq_bind, Option.bind_some]
  rw [if_pos (by omega)]
  generalize Word.floor v = i
  refine congrArg some ?_
  omega

theorem nearestIndex?_lt {v : Float} {len i : Nat} (h : nearestIndex? v len = some i) : i < len := by
  simp only [nearestIndex?, Option.bind_eq_bind, Option.bind_eq_some_iff] at h
  obtain ⟨last, hlast, h⟩ := h
  have hle := Word.signed_le len
  unfold Word.pred? at hlast
  split at hlast
  · obtain rfl := Option.some.inj hlast
    split at h
    · obtain rfl := Option.some.inj h
      omega
    · cases h
  · cases hlast

namespace Canvas

theorem nearest?_mem {k : Canvas} {p : Point} {c : Cell} (h : k.nearest? p = some c) : c ∈ k := by
  simp only [nearest?, Option.bind_eq_bind, Option.bind_eq_some_iff, Option.pure_def] at h
  obtain ⟨col, hcol, row, hrow, h⟩ := h
  obtain rfl := Option.some.inj h
  exact ⟨nearestIndex?_lt hcol, nearestIndex?_lt hrow⟩

theorem Addressable.sides {k : Canvas} (h : k.Addressable) : k.width < Word.signedLimit ∧ k.height < Word.signedLimit := by
  have hw : max k.width 1 ≤ max k.height 1 * max k.width 1 := Nat.le_mul_of_pos_left _ (by omega)
  have hh : max k.height 1 ≤ max k.height 1 * max k.width 1 := Nat.le_mul_of_pos_right _ (by omega)
  unfold Addressable at h
  omega

theorem exists_nearest? {k : Canvas} (hk : k.Addressable) {c : Cell} (hc : c ∈ k) (p : Point) :
    ∃ d ∈ k, k.nearest? p = some d := by
  obtain ⟨hw, hh⟩ := hk.sides
  have hpos : 0 < k.width ∧ 0 < k.height := ⟨Nat.zero_lt_of_lt hc.1, Nat.zero_lt_of_lt hc.2⟩
  have heq : k.nearest? p = some ⟨min (Word.floor p.x).toNat (k.width - 1), min (Word.floor p.y).toNat (k.height - 1)⟩ := by
    simp [nearest?, nearestIndex?_eq hpos.1 hw, nearestIndex?_eq hpos.2 hh]
  exact ⟨_, nearest?_mem heq, heq⟩

end Canvas

end GlobeTexture
