/-! # Words

Lengths, indices and counts are 64-bit words. They are held as natural numbers, and each operation
that could leave the range says so: its result is `none` exactly when the true result does not fit. -/

namespace GlobeTexture.Word

/-- The first number that no word holds. -/
def limit : Nat := 0x10000000000000000

/-- The first number that no signed word holds. -/
def signedLimit : Nat := 0x8000000000000000

/-- The sum, if it is a word. -/
def add? (a b : Nat) : Option Nat :=
  if a + b < limit then some (a + b) else none

/-- The product, if it is a word. -/
def mul? (a b : Nat) : Option Nat :=
  if a * b < limit then some (a * b) else none

/-- The signed reading of a word: its upper half stands for the negative numbers. -/
def signed (n : Nat) : Int :=
  (n : Int).bmod limit

/-- The signed word before `i`, if there is one. -/
def pred? (i : Int) : Option Int :=
  if -(signedLimit : Int) ≤ i - 1 then some (i - 1) else none

/-- The signed word nearest to an integer. -/
def saturate (i : Int) : Int :=
  max (-(signedLimit : Int)) (min i (signedLimit - 1))

/-- Whether so many items of so many bytes each can be stored in one block: the size of a block in bytes is
    a signed word. -/
def Fits (items bytes : Nat) : Prop :=
  items * bytes < signedLimit

instance (items bytes : Nat) : Decidable (Fits items bytes) :=
  inferInstanceAs (Decidable (_ < _))

theorem add?_eq_some_iff {a b c : Nat} : add? a b = some c ↔ a + b = c ∧ a + b < limit := by
  grind [add?]

theorem mul?_eq_some_iff {a b c : Nat} : mul? a b = some c ↔ a * b = c ∧ a * b < limit := by
  grind [mul?]

theorem saturate_mem (i : Int) : -(signedLimit : Int) ≤ saturate i ∧ saturate i < signedLimit := by
  simp only [saturate, signedLimit]
  omega

end GlobeTexture.Word
