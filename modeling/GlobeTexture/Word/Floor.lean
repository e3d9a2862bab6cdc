import GlobeTexture.Word

/-! # Floors of floats

The floor of a binary64 number as a signed word. The number is read off its bits as a whole number of
units `2 ^ (e - 1075)`, so the floor is a shift of exact integers and no rounding takes part. -/

namespace GlobeTexture.Word

/-- The floor of `m * 2 ^ (e - 1075)`. -/
def scaledFloor (m : Int) (e : Nat) : Int :=
  if 1075 ≤ e then m <<< (e - 1075) else m >>> (1075 - e)

/-- The floor of a float as a signed word: values beyond the range, infinities included, go to its ends,
    and what is not a number goes to zero. -/
def floor (v : Float) : Int :=
  let bits : Nat := v.toBits.toNat
  let exponent : Nat := (bits >>> 52) % (1 <<< 11)
  let fraction : Nat := bits % (1 <<< 52)
  let withSign (n : Nat) : Int := if bits >>> 63 = 0 then n else -n
  if exponent = 2047 then
    if fraction = 0 then saturate (withSign signedLimit) else 0
  else if exponent = 0 then
    saturate (scaledFloor (withSign fraction) 1)
  else
    saturate (scaledFloor (withSign ((1 <<< 52) + fraction)) exponent)

theorem floor_mem (v : Float) : -(signedLimit : Int) ≤ floor v ∧ floor v < signedLimit := by
  simp only [floor]
  split
  · split
    · exact saturate_mem _
    · simp [signedLimit]
  · split <;> exact saturate_mem _

end GlobeTexture.Word
