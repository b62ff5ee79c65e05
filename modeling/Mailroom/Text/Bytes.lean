/-! Texts as bytes. A character is written in one to four bytes. Reading takes any bytes: a piece
that begins like a character and does not go on as one counts as a single replacement character. -/

namespace Mailroom.Text

def bytesOf (c : Char) : List Nat :=
  let n := c.toNat
  if n < 0x80 then [n]
  else if n < 0x800 then [0xC0 + n / 0x40, 0x80 + n % 0x40]
  else if n < 0x10000 then [0xE0 + n / 0x1000, 0x80 + n / 0x40 % 0x40, 0x80 + n % 0x40]
  else [0xF0 + n / 0x40000, 0x80 + n / 0x1000 % 0x40, 0x80 + n / 0x40 % 0x40, 0x80 + n % 0x40]

def toBytes (s : String) : List Nat := s.toList.flatMap bytesOf

/-- A character under way: how many bytes are still needed, the bounds of the next one, and the
bits so far. -/
structure Pending where
  needed : Nat := 0
  lower : Nat := 0x80
  upper : Nat := 0xBF
  bits : Nat := 0
deriving DecidableEq, Repr

/-- What a byte begins: the characters it completes by itself, and the character under way. -/
def startOf (b : Nat) : List Char × Pending :=
  if b < 0x80 then ([Char.ofNat b], {})
  else if b < 0xC2 then (['\ufffd'], {})
  else if b < 0xE0 then ([], { needed := 1, bits := b - 0xC0 })
  else if b = 0xE0 then ([], { needed := 2, lower := 0xA0, bits := 0 })
  else if b = 0xED then ([], { needed := 2, upper := 0x9F, bits := 0xD })
  else if b < 0xF0 then ([], { needed := 2, bits := b - 0xE0 })
  else if b = 0xF0 then ([], { needed := 3, lower := 0x90, bits := 0 })
  else if b < 0xF4 then ([], { needed := 3, bits := b - 0xF0 })
  else if b = 0xF4 then ([], { needed := 3, upper := 0x8F, bits := 4 })
  else (['\ufffd'], {})

/-- The characters of some bytes, with a character under way. -/
def readBytes : Pending → List Nat → List Char
  | p, [] => if p.needed = 0 then [] else ['\ufffd']
  | p, b :: rest =>
    if p.needed = 0 then
      let (done, next) := startOf b
      done ++ readBytes next rest
    else if p.lower ≤ b && b ≤ p.upper then
      let bits := p.bits * 0x40 + (b - 0x80)
      if p.needed = 1 then Char.ofNat bits :: readBytes {} rest
      else readBytes { needed := p.needed - 1, bits } rest
    else
      let (done, next) := startOf b
      '\ufffd' :: (done ++ readBytes next rest)

/-- The text that bytes write. -/
def ofBytes (bytes : List Nat) : String := String.ofList (readBytes {} bytes)

end Mailroom.Text
