import Mailroom.Text.Split

/-! Paints: texts between escape sequences that colour them. Where a text itself ends the paint,
the paint is begun again. -/

namespace Mailroom.Terminal

/-- How a paint begins, how it ends, and how it is begun again inside. -/
structure Paint where
  opening : List Char
  closing : List Char
  again : List Char
deriving DecidableEq, Repr

def sequence (code : Nat) : List Char := '\x1b' :: '[' :: (Nat.toDigits 10 code ++ ['m'])

def Paint.ofCodes (opening closing : Nat) : Paint :=
  ⟨sequence opening, sequence closing, sequence opening⟩

/-- A paint whose end also ends other paints, so that it is ended before it begins again. -/
def Paint.ofSharedCodes (opening closing : Nat) : Paint :=
  ⟨sequence opening, sequence closing, sequence closing ++ sequence opening⟩

def bold : Paint := .ofSharedCodes 1 22

def dim : Paint := .ofSharedCodes 2 22

def red : Paint := .ofCodes 31 39

def green : Paint := .ofCodes 32 39

def cyan : Paint := .ofCodes 36 39

namespace Paint

/-- The text with the paint begun again at each end of it. The number counts characters that
belong to an end already found. -/
def renewed (p : Paint) : Nat → List Char → List Char
  | _, [] => []
  | skip + 1, _ :: cs => renewed p skip cs
  | 0, c :: cs =>
    if (Text.after? p.closing (c :: cs)).isSome then
      p.again ++ renewed p (p.closing.length - 1) cs
    else c :: renewed p 0 cs

/-- The text inside the paint. Ends within the first few 16-bit units, as many as the opening
has, are not looked for. -/
def inside (p : Paint) : Nat → List Char → List Char
  | 0, cs => p.renewed 0 cs
  | _ + 1, [] => []
  | n + 1, c :: cs => c :: inside p (if c.toNat < 0x10000 then n else n - 1) cs

def chars (p : Paint) (cs : List Char) : List Char :=
  p.opening ++ p.inside p.opening.length cs ++ p.closing

def apply (p : Paint) (s : String) : String := String.ofList (p.chars s.toList)

end Paint

end Mailroom.Terminal
