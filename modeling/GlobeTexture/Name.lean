/-! # Names

Names are looked up without regard to case. All names known here are ASCII, so lower case has to be right
only as far as it can reach ASCII: for the ASCII letters and for the two characters beyond ASCII whose lower
case holds an ASCII letter. The lower case of every other character lies beyond ASCII, as the character
itself does, and no known name has either. -/

namespace GlobeTexture.Name

/-- The kelvin sign, whose lower case is an ASCII letter. -/
def kelvinSign : Char := Char.ofNat 0x212A

/-- The capital I with a dot, whose lower case is an ASCII letter with the dot after it. -/
def dottedI : Char := Char.ofNat 0x130

/-- The dot above a letter, as a character of its own. -/
def dotAbove : Char := Char.ofNat 0x307

/-- The lower case of a character, up to the choice of characters beyond ASCII. -/
def lowerChar (c : Char) : List Char :=
  if c = kelvinSign then ['k'] else if c = dottedI then ['i', dotAbove] else [c.toLower]

/-- A name in lower case, as characters. -/
def lower (s : String) : List Char :=
  s.toList.flatMap lowerChar

/-- Low lines read as hyphens. -/
def hyphenated (cs : List Char) : List Char :=
  cs.map fun c => if c = '_' then '-' else c

end GlobeTexture.Name
