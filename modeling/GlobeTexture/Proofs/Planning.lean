import GlobeTexture.Proofs.Nearest
import GlobeTexture.Proofs.Partition

/-! # When tiles can be planned

A plan needs room for all of its tiles, and each position that the cutting comes to has to be a word. Apart from the
room, only the number of tiles and the positions past the last row and the last column of tiles can leave the range of
words, and the columns are looked at only where there is a row. On a canvas whose offsets are signed words the positions
are words for every size of tiles, so that the number of tiles alone decides. -/

namespace GlobeTexture

theorem Span.count_mul_lt_limit {size stop : Nat} (hsize : 0 < size) (hword : size < Word.limit)
    (hstop : stop < Word.signedLimit) : count stop size * size < Word.limit := by
  have hle : count stop size * size ≤ stop + size - 1 := Nat.div_mul_le_self _ _
  rcases Nat.lt_or_ge 1 (count stop size) with hmany | hone
  · -- The first of several spans lies below `stop`, so no span is longer than that.
    have hlt := (lt_count_iff hsize).mp hmany
    simp only [Word.limit, Word.signedLimit] at *
    omega
  · have := Nat.mul_le_mul_right size hone
    omega

namespace Tile

/-- How many tiles of a size it takes to cover a canvas. -/
def count (k : Canvas) (size : TileSize) : Nat :=
  Span.count k.height size.height * Span.count k.width size.width

variable {k : Canvas} {size : TileSize}

theorem count_eq_ceilDiv (k : Canvas) (size : TileSize) :
    count k size = (k.height ⌈/⌉ size.height) * (k.width ⌈/⌉ size.width) := by
  rw [count, Span.count_eq_ceilDiv, Span.count_eq_ceilDiv]

/-- The positions past the last row and, if there is a row, past the last column of tiles are words. -/
def Reachable (k : Canvas) (size : TileSize) : Prop :=
  Span.count k.height size.height * size.height < Word.limit ∧
    (k.height = 0 ∨ Span.count k.width size.width * size.width < Word.limit)

instance (k : Canvas) (size : TileSize) : Decidable (Reachable k size) :=
  inferInstanceAs (Decidable (_ ∧ _))

theorem reachable_of_sides (hh : 0 < size.height) (hw : 0 < size.width) (hhword : size.height < Word.limit)
    (hwword : size.width < Word.limit) (hheight : k.height < Word.signedLimit) (hwidth : k.width < Word.signedLimit) :
    Reachable k size :=
  ⟨Span.count_mul_lt_limit hh hhword hheight, Or.inr (Span.count_mul_lt_limit hw hwword hwidth)⟩

section Planned
variable {room : Nat → Prop} [DecidablePred room] (hh : 0 < size.height) (hw : 0 < size.width)
include hh hw

/-- A plan of tiles that have sides is the grid of them, or there is none. -/
theorem planIn_eq :
    planIn room k size =
      if count k size < Word.limit ∧ room (count k size) ∧ Reachable k size then .ok (grid k size)
      else .error .outOfRange := by
  have hcut : cut? k size #[] = if Reachable k size then some (grid k size).toArray else none := cut?_eq hh hw
  rw [planIn, if_neg (by omega)]
  simp only [Array.emptyWithCapacity_eq, hcut]
  by_cases hcount : count k size < Word.limit
  · have hmul : Word.mul? (Span.count k.height size.height) (Span.count k.width size.width) = some (count k size) :=
      if_pos hcount
    rw [hmul, Option.bind_eq_bind, Option.bind_some]
    by_cases hroom : room (count k size)
    · by_cases hreach : Reachable k size
      · rw [if_pos hroom, if_pos hreach, if_pos ⟨hcount, hroom, hreach⟩]
        rfl
      · rw [if_pos hroom, if_neg hreach, if_neg fun h => hreach h.2.2]
        rfl
    · rw [if_neg hroom, if_neg fun h => hroom h.2.1]
      rfl
  · have hmul : Word.mul? (Span.count k.height size.height) (Span.count k.width size.width) = none := if_neg hcount
    rw [hmul]
    exact (if_neg fun h => hcount h.1).symm

theorem planIn_eq_outOfRange_iff :
    planIn room k size = .error .outOfRange ↔
      ¬(count k size < Word.limit ∧ room (count k size) ∧ Reachable k size) := by
  rw [planIn_eq hh hw]
  split <;> simp_all

theorem planIn_eq_ok (hplan : planIn room k size ≠ .error .outOfRange) :
    planIn room k size = .ok (grid k size) ∧ Reachable k size := by
  rw [ne_eq, planIn_eq_outOfRange_iff hh hw, Decidable.not_not] at hplan
  exact ⟨(planIn_eq hh hw).trans (if_pos hplan), hplan.2.2⟩

theorem plan_eq_outOfRange_iff :
    plan k size = .error .outOfRange ↔ ¬Word.Fits (count k size) bytes ∨
      Word.limit ≤ Span.count k.height size.height * size.height ∨
      0 < k.height ∧ Word.limit ≤ Span.count k.width size.width * size.width := by
  have hword : Word.Fits (count k size) bytes → count k size < Word.limit := by
    unfold Word.Fits bytes Word.signedLimit Word.limit
    omega
  rw [plan, planIn_eq_outOfRange_iff hh hw, Reachable]
  by_cases hfits : Word.Fits (count k size) bytes
  · simp only [hfits, hword hfits, true_and, not_true, false_or]
    omega
  · simp only [hfits, false_and, and_false, not_false_eq_true, true_or]

/-- Where the cutting comes to an end, it comes to the same end however many steps it is allowed. -/
theorem cutFrom?_eq_grid (hreach : Reachable k size) {m n : Nat} (hm : k.height ≤ m) (hn : k.width ≤ n) :
    Span.cutFrom? size.height k.height (fun tiles rows =>
      Span.cutFrom? size.width k.width (fun tiles cols => some (tiles.push ⟨rows, cols⟩)) n 0 tiles) m 0 #[] =
      some (grid k size).toArray := by
  have hcols : (fun (tiles : Array Tile) rows =>
      Span.cutFrom? size.width k.width (fun tiles cols => some (tiles.push ⟨rows, cols⟩)) n 0 tiles) =
      fun tiles rows => Span.cut? size.width k.width (fun tiles cols => some (tiles.push ⟨rows, cols⟩)) tiles := by
    funext tiles rows
    rw [Span.cutFrom?_eq hw (Nat.le_trans (Span.count_le hw) hn), Span.cut?_eq hw]
  rw [hcols, Span.cutFrom?_eq hh (Nat.le_trans (Span.count_le hh) hm), ← Span.cut?_eq hh]
  exact (cut?_eq hh hw).trans (if_pos hreach)

end Planned

theorem planIn_eq_zeroTile_iff {room : Nat → Prop} [DecidablePred room] :
    planIn room k size = .error (.fault .zeroTile) ↔ size.height = 0 ∨ size.width = 0 := by
  refine ⟨fun h => ?_, fun h => if_pos h⟩
  by_contra hsides
  rw [planIn_eq (by omega) (by omega)] at h
  split at h <;> cases h

/-- Square tiles of a word's side can be planned on an addressable canvas exactly if there is room for them. -/
theorem plan_square_eq_outOfRange_iff (hk : k.Addressable) {s : Nat} (hs : s ≠ 0) (hword : s < Word.limit) :
    plan k (.square s) = .error .outOfRange ↔ ¬Word.Fits (count k (.square s)) bytes := by
  have hpos : 0 < s := Nat.pos_of_ne_zero hs
  obtain ⟨hw, hh⟩ := hk.sides
  have hrows : Span.count k.height s * s < Word.limit := Span.count_mul_lt_limit hpos hword hh
  have hcols : Span.count k.width s * s < Word.limit := Span.count_mul_lt_limit hpos hword hw
  rw [plan_eq_outOfRange_iff hpos hpos]
  simp only [TileSize.square, Nat.not_le.mpr hrows, Nat.not_le.mpr hcols, and_false, or_false]

/-- Planning has the fault of tiles without a side exactly for such tiles. For tiles that have sides, and with room for
    as many tiles as there are if that is a word, it leaves the range of words exactly if the number of tiles, or the
    position past the last row of tiles, or where there is a row the position past the last column of tiles is not a
    word. Otherwise it has all the tiles, and both cuttings end by themselves. On a canvas with sides that are signed
    words it is the number of tiles alone that can leave the range. The room there is in one block of storage is one of
    the rooms that this is said of. -/
theorem planIn_outcomes (k : Canvas) (size : TileSize) :
    plan k size = planIn (Word.Fits · bytes) k size ∧
    ∀ (room : Nat → Prop) [DecidablePred room],
      ((k.height ⌈/⌉ size.height) * (k.width ⌈/⌉ size.width) < Word.limit →
        room ((k.height ⌈/⌉ size.height) * (k.width ⌈/⌉ size.width))) →
      (planIn room k size = .error (.fault .zeroTile) ↔ size.height = 0 ∨ size.width = 0) ∧
      (size.height ≠ 0 → size.width ≠ 0 →
        (planIn room k size = .error .outOfRange ↔
          Word.limit ≤ (k.height ⌈/⌉ size.height) * (k.width ⌈/⌉ size.width) ∨
          Word.limit ≤ (k.height ⌈/⌉ size.height) * size.height ∨
          0 < k.height ∧ Word.limit ≤ (k.width ⌈/⌉ size.width) * size.width) ∧
        (planIn room k size ≠ .error .outOfRange → ∃ tiles,
          planIn room k size = .ok tiles ∧
          tiles.length = (k.height ⌈/⌉ size.height) * (k.width ⌈/⌉ size.width) ∧
          ∀ m n, k.height ≤ m → k.width ≤ n →
            Span.cutFrom? size.height k.height (fun tiles rows =>
              Span.cutFrom? size.width k.width (fun tiles cols => some (tiles.push ⟨rows, cols⟩)) n 0 tiles) m 0 #[] =
              some tiles.toArray) ∧
        (size.height < Word.limit → size.width < Word.limit →
          k.height < Word.signedLimit → k.width < Word.signedLimit →
          (k.height ⌈/⌉ size.height) * (k.width ⌈/⌉ size.width) < Word.limit →
          ∃ tiles, planIn room k size = .ok tiles)) := by
  refine ⟨rfl, fun room _ hroom => ?_⟩
  rw [← count_eq_ceilDiv] at hroom ⊢
  refine ⟨planIn_eq_zeroTile_iff, fun hh hw => ?_⟩
  have hh := Nat.pos_of_ne_zero hh
  have hw := Nat.pos_of_ne_zero hw
  refine ⟨?_, fun hplan => ?_, fun hhword hwword hheight hwidth hcount => ?_⟩
  · rw [planIn_eq_outOfRange_iff hh hw, Reachable, ← Span.count_eq_ceilDiv, ← Span.count_eq_ceilDiv]
    by_cases hcount : count k size < Word.limit
    · simp only [hcount, hroom hcount, true_and]
      omega
    · simp only [hcount, false_and, not_false_eq_true, Nat.le_of_not_lt hcount, true_or]
  · obtain ⟨hgrid, hreach⟩ := planIn_eq_ok hh hw hplan
    exact ⟨grid k size, hgrid, length_grid k size, fun m n hm hn => cutFrom?_eq_grid hh hw hreach hm hn⟩
  · have hreach := reachable_of_sides hh hw hhword hwword hheight hwidth
    exact ⟨grid k size, (planIn_eq hh hw).trans (if_pos ⟨hcount, hroom hcount, hreach⟩)⟩

/-- At the end of the words: two rows of tiles that reach beyond it, two columns that do if there is a row and are not
    looked at if there is none, and more tiles than one block of storage takes, though their number is a word. -/
theorem planIn_outcomes_edge :
    plan ⟨1, Word.limit - 1⟩ ⟨Word.signedLimit, 1⟩ = .error .outOfRange ∧
      plan ⟨Word.limit - 1, 1⟩ ⟨1, Word.signedLimit⟩ = .error .outOfRange ∧
      (∃ tiles, plan ⟨Word.limit - 1, 0⟩ ⟨1, Word.signedLimit⟩ = .ok tiles ∧ tiles.length = 0) ∧
      ∃ tiles, planIn (fun _ => True) ⟨1, 0x1000000000000000⟩ ⟨1, 1⟩ = .ok tiles ∧
        tiles.length = 0x1000000000000000 := by
  obtain ⟨hrows, hrowsOut⟩ := planIn_outcomes ⟨1, Word.limit - 1⟩ ⟨Word.signedLimit, 1⟩
  obtain ⟨hcols, hcolsOut⟩ := planIn_outcomes ⟨Word.limit - 1, 1⟩ ⟨1, Word.signedLimit⟩
  obtain ⟨hnone, hnoneOut⟩ := planIn_outcomes ⟨Word.limit - 1, 0⟩ ⟨1, Word.signedLimit⟩
  obtain ⟨-, hmany⟩ := planIn_outcomes ⟨1, 0x1000000000000000⟩ ⟨1, 1⟩
  simp only [Nat.ceilDiv_eq_add_pred_div] at hrowsOut hcolsOut hnoneOut hmany
  refine ⟨?_, ?_, ?_, ?_⟩
  · rw [hrows]
    exact ((hrowsOut (Word.Fits · bytes) (by decide)).2 (by decide) (by decide)).1.mpr (by decide)
  · rw [hcols]
    exact ((hcolsOut (Word.Fits · bytes) (by decide)).2 (by decide) (by decide)).1.mpr (by decide)
  · rw [hnone]
    obtain ⟨hiff, hok, -⟩ := (hnoneOut (Word.Fits · bytes) (by decide)).2 (by decide) (by decide)
    obtain ⟨tiles, htiles, hlength, -⟩ := hok (mt hiff.mp (by decide))
    exact ⟨tiles, htiles, hlength⟩
  · obtain ⟨hiff, hok, -⟩ := (hmany (fun _ => True) fun _ => trivial).2 (by decide) (by decide)
    obtain ⟨tiles, htiles, hlength, -⟩ := hok (mt hiff.mp (by decide))
    exact ⟨tiles, htiles, hlength⟩

end Tile

end GlobeTexture
