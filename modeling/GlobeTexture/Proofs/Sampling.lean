import GlobeTexture.Proofs.Floors
import GlobeTexture.Proofs.Nearest

/-! # Samples at every length

Three things can keep an index from being found along a side, and they have one boundary: the length of the side is read as
a signed word, the index before it has to be one, and it must not be negative. Together they ask for a positive length that
is a signed word, whatever float is looked up. Where there are indices along both sides, a sample is one read on the
canvas. -/

namespace GlobeTexture

namespace Word

theorem signed_of_le {n : Nat} (h : signedLimit ≤ n) (hn : n < limit) : signed n = (n : Int) - limit := by
  simp only [signedLimit, limit] at h hn
  rw [signed, Int.bmod_def, limit]
  omega

/-- Only the least signed word has none before it. -/
theorem pred?_signed_eq_none_iff {n : Nat} (hn : n < limit) : pred? (signed n) = none ↔ n = signedLimit := by
  rw [pred?, ite_eq_right_iff]
  simp only [reduceCtorEq, imp_false]
  rcases Nat.lt_or_ge n signedLimit with h | h
  · rw [signed_of_lt h]
    omega
  · rw [signed_of_le h hn]
    unfold signedLimit limit at *
    omega

end Word

variable {v : Float} {len : Nat}

theorem nearestIndex?_eq_none_iff (hlen : len < Word.limit) :
    nearestIndex? v len = none ↔ len = 0 ∨ Word.signedLimit ≤ len := by
  refine ⟨fun h => ?_, ?_⟩
  · by_contra hbounds
    obtain ⟨h0, hle⟩ := not_or.mp hbounds
    rw [nearestIndex?_eq (Nat.pos_of_ne_zero h0) (Nat.lt_of_not_le hle)] at h
    cases h
  · rintro (rfl | hle)
    · -- The index before the length is negative.
      rfl
    · rcases Nat.eq_or_lt_of_le hle with rfl | hlt
      · -- There is no word before the length.
        rw [nearestIndex?, (Word.pred?_signed_eq_none_iff hlen).mpr rfl]
        rfl
      · -- The length itself is negative.
        have hpred : Word.pred? (Word.signed len) = some ((len : Int) - Word.limit - 1) := by
          rw [Word.signed_of_le hle hlen, Word.pred?, if_pos]
          simp only [Word.signedLimit, Word.limit] at *
          omega
        rw [nearestIndex?, hpred, Option.bind_eq_bind, Option.bind_some, if_neg (by omega)]

/-- Where there is an index, it is the floor of the position, moved into the side. -/
theorem nearestIndex?_eq_some_iff (hlen : len < Word.limit) {i : Nat} :
    nearestIndex? v len = some i ↔
      ¬(len = 0 ∨ Word.signedLimit ≤ len) ∧ (i : Int) = min (max (Word.floor v) 0) (len - 1) := by
  by_cases hbounds : len = 0 ∨ Word.signedLimit ≤ len
  · rw [(nearestIndex?_eq_none_iff hlen).mpr hbounds]
    simp [hbounds]
  · obtain ⟨h0, hle⟩ := not_or.mp hbounds
    rw [nearestIndex?_eq (Nat.pos_of_ne_zero h0) (Nat.lt_of_not_le hle), Option.some.injEq]
    generalize Word.floor v = t
    simp only [hbounds, not_false_eq_true, true_and]
    omega

namespace Canvas

variable {k : Canvas} {p : Point}

theorem nearest?_eq_some_iff {c : Cell} :
    k.nearest? p = some c ↔ nearestIndex? p.x k.width = some c.col ∧ nearestIndex? p.y k.height = some c.row := by
  obtain ⟨col, row⟩ := c
  simp only [nearest?, Option.bind_eq_bind, Option.bind_eq_some_iff, Option.pure_def, Option.some.injEq, Cell.mk.injEq]
  constructor
  · rintro ⟨i, hi, j, hj, rfl, rfl⟩
    exact ⟨hi, hj⟩
  · rintro ⟨hi, hj⟩
    exact ⟨col, hi, row, hj, rfl, rfl⟩

theorem nearest?_eq_none_iff :
    k.nearest? p = none ↔ nearestIndex? p.x k.width = none ∨ nearestIndex? p.y k.height = none := by
  rw [nearest?]
  cases nearestIndex? p.x k.width <;> cases nearestIndex? p.y k.height <;> simp

end Canvas

namespace Source

variable {α : Type} {src : Source α} {p : Point}

theorem sample_of_nearest {c : Cell} (h : src.canvas.nearest? p = some c) : src.sample p = src.fetch c := by
  rw [sample, h, fetch?]

theorem sample_of_none (h : src.canvas.nearest? p = none) : src.sample p = ⟨[], .error .outOfRange⟩ := by
  rw [sample, h, fetch?, Traced.lift]

theorem result_fetch_ne_outOfRange (c : Cell) : (src.fetch c).result ≠ .error .outOfRange := by
  rw [fetch]
  cases src.read c <;> simp [Failure.ofExcept]

theorem result_sample_eq_outOfRange_iff :
    (src.sample p).result = .error .outOfRange ↔ src.canvas.nearest? p = none := by
  refine ⟨fun h => ?_, fun h => by rw [sample_of_none h]⟩
  cases hnear : src.canvas.nearest? p with
  | none => rfl
  | some c =>
    rw [sample_of_nearest hnear] at h
    exact absurd h (result_fetch_ne_outOfRange c)

end Source

/-- The floor of a float is a signed word: zero for what is not a number, and else the floor of the exact value, moved into
    the signed words. An index along a side is found for every float unless the side is empty or its length is not a
    signed word. It is the floor moved into the side, so it lies along the side and grows with the floor. A sample leaves
    the range, without a read, exactly if an index is missing along one of the sides; otherwise it is one read, on the
    canvas, and has the outcome of this read. -/
theorem nearestIndex?_sample_outcomes :
    (∀ v : Float, -(Word.signedLimit : Int) ≤ Word.floor v ∧ Word.floor v < Word.signedLimit ∧
      (v.isNaN = true → Word.floor v = 0) ∧ Word.floor v = Word.floorOf v.toModel.unpack) ∧
    (∀ len < Word.limit, ∀ v : Float,
      (nearestIndex? v len = none ↔ len = 0 ∨ Word.signedLimit ≤ len) ∧
      (¬(len = 0 ∨ Word.signedLimit ≤ len) → ∃ i, nearestIndex? v len = some i ∧
        (i : Int) = min (max (Word.floor v) 0) (len - 1) ∧ i < len ∧
        ∀ w j, Word.floor v ≤ Word.floor w → nearestIndex? w len = some j → i ≤ j)) ∧
    ∀ (α : Type) (src : Source α) (p : Point), src.canvas.width < Word.limit → src.canvas.height < Word.limit →
      ((src.sample p).result = .error .outOfRange ↔
        (src.canvas.width = 0 ∨ Word.signedLimit ≤ src.canvas.width) ∨
        (src.canvas.height = 0 ∨ Word.signedLimit ≤ src.canvas.height)) ∧
      ((src.sample p).result = .error .outOfRange → (src.sample p).events = []) ∧
      ((src.sample p).result ≠ .error .outOfRange → ∃ c ∈ src.canvas,
        nearestIndex? p.x src.canvas.width = some c.col ∧ nearestIndex? p.y src.canvas.height = some c.row ∧
        (src.sample p).events = [.read c] ∧ (src.sample p).result = Failure.ofExcept (src.read c)) := by
  refine ⟨fun v => ⟨(Word.floor_mem v).1, (Word.floor_mem v).2, fun hnan => ?_, Word.floor_eq_floorOf v⟩,
    fun len hlen v => ⟨nearestIndex?_eq_none_iff hlen, fun hbounds => ?_⟩,
    fun α src p hwidth hheight => ⟨?_, fun h => ?_, fun h => ?_⟩⟩
  · rw [Word.floor_eq_floorOf]
    exact Word.floorOf_of_isNaN hnan
  · obtain ⟨i, hi⟩ := Option.ne_none_iff_exists'.mp (mt (nearestIndex?_eq_none_iff (v := v) hlen).mp hbounds)
    have heq := ((nearestIndex?_eq_some_iff hlen).mp hi).2
    refine ⟨i, hi, heq, nearestIndex?_lt hi, fun w j hle hj => ?_⟩
    have heq' := ((nearestIndex?_eq_some_iff hlen).mp hj).2
    omega
  · rw [Source.result_sample_eq_outOfRange_iff, Canvas.nearest?_eq_none_iff, nearestIndex?_eq_none_iff hwidth,
      nearestIndex?_eq_none_iff hheight]
  · rw [Source.sample_of_none (Source.result_sample_eq_outOfRange_iff.mp h)]
  · obtain ⟨c, hc⟩ := Option.ne_none_iff_exists'.mp (mt Source.result_sample_eq_outOfRange_iff.mpr h)
    obtain ⟨hcol, hrow⟩ := Canvas.nearest?_eq_some_iff.mp hc
    refine ⟨c, Canvas.nearest?_mem hc, hcol, hrow, ?_, ?_⟩ <;> rw [Source.sample_of_nearest hc] <;> rfl

/-- At the ends of the range: infinity goes to the last index along the longest side there can be, the next length has no
    index, and a sample that is no number along one axis and too large along the other is a read at the edge. -/
theorem nearestIndex?_sample_outcomes_edge :
    nearestIndex? (1.0 / 0.0) (Word.signedLimit - 1) = some (Word.signedLimit - 2) ∧
      nearestIndex? (1.0 / 0.0) Word.signedLimit = none ∧
      let src : Source Nat := ⟨⟨3, 2⟩, fun c => .ok (c.row * 3 + c.col)⟩
      (src.sample ⟨0.0 / 0.0, 1e300⟩).events = [.read ⟨0, 1⟩] ∧ (src.sample ⟨0.0 / 0.0, 1e300⟩).result = .ok 3 := by
  obtain ⟨-, hindex, hsample⟩ := nearestIndex?_sample_outcomes
  refine ⟨?_, ((hindex Word.signedLimit (by decide) _).1).mpr (by decide), ?_⟩
  · obtain ⟨i, hi, heq, -⟩ := (hindex (Word.signedLimit - 1) (by decide) (1.0 / 0.0)).2 (by decide)
    have hfloor : Word.floor (1.0 / 0.0) = Word.signedLimit - 1 := by decide +kernel
    rw [hi, Option.some.injEq]
    rw [hfloor] at heq
    unfold Word.signedLimit at heq ⊢
    omega
  · intro src
    obtain ⟨hout, -, hread⟩ := hsample Nat src ⟨0.0 / 0.0, 1e300⟩ (by decide) (by decide)
    obtain ⟨⟨col, row⟩, -, hcol, hrow, hevents, hresult⟩ := hread (mt hout.mp (by decide))
    have hx : nearestIndex? (0.0 / 0.0) 3 = some 0 := by decide +kernel
    have hy : nearestIndex? 1e300 2 = some 1 := by decide +kernel
    obtain rfl := Option.some.inj (hx.symm.trans hcol)
    obtain rfl := Option.some.inj (hy.symm.trans hrow)
    exact ⟨hevents, hresult⟩

end GlobeTexture
