/-! Texts in order of their UTF-16 units. A character beyond the basic plane counts as its two
surrogates, so it sorts before the private and compatibility characters at the end of the plane. -/

namespace Mailroom.Text

/-- The one or two 16-bit units of a character. -/
def unitsOf (c : Char) : List Nat :=
  if c.toNat < 0x10000 then [c.toNat]
  else [0xD800 + (c.toNat - 0x10000) / 0x400, 0xDC00 + (c.toNat - 0x10000) % 0x400]

/-- The text as 16-bit units. -/
def units (s : String) : List Nat :=
  s.toList.flatMap unitsOf

/-- Whether the first text comes strictly before the second. -/
def before (a b : String) : Bool :=
  decide (units a < units b)

end Mailroom.Text
