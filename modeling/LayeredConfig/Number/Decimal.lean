import LayeredConfig.Number.Binary64
import LayeredConfig.Number.Integer

/-!
# Decimal numbers as text

Reads a number with an optional sign, fraction and exponent, or one of the names for infinity and
for what is not a number, in any case. Single underscores may separate digits.
-/

namespace LayeredConfig.Binary64

open Text (isDigit hexValue? ofDigits)
open Integer (isAsciiBlank toAscii takeSign)

/-- The characters without their underscores, if each of those stands between two digits. -/
def dropSeparators (before : Option Char) : List Char → Option (List Char)
  | [] => some []
  | '_' :: rest =>
    if before.any isDigit && rest.head?.any isDigit then dropSeparators (some '_') rest else none
  | c :: rest => (dropSeparators (some c) rest).map (c :: ·)

/-- The value of the exponent part, if the characters are nothing else. -/
def readExponent : List Char → Option Int
  | [] => some 0
  | c :: rest =>
    if c = 'e' || c = 'E' then
      let (negative, digits) := takeSign rest
      if digits.isEmpty || !digits.all isDigit then none
      else
        let n := ofDigits 10 (digits.filterMap hexValue?)
        some (if negative then -(n : Int) else n)
    else none

/-- Digits with an optional point and exponent. -/
def readMagnitude (negative : Bool) (cs : List Char) : Option Binary64 :=
  let whole := cs.takeWhile isDigit
  let (fraction, rest) := match cs.drop whole.length with
    | '.' :: rest => (rest.takeWhile isDigit, rest.dropWhile isDigit)
    | rest => ([], rest)
  if whole.isEmpty && fraction.isEmpty then none
  else
    (readExponent rest).map fun exponent =>
      ofDecimal negative (ofDigits 10 ((whole ++ fraction).filterMap hexValue?))
        (exponent - fraction.length)

def read (cs : List Char) : Option Binary64 := do
  let cs := (toAscii cs).dropWhile isAsciiBlank
  let cs := (cs.reverse.dropWhile isAsciiBlank).reverse
  let cs ← dropSeparators none cs
  let (negative, magnitude) := takeSign cs
  match magnitude.map Char.toLower with
  | ['i', 'n', 'f'] => some (.infinite negative)
  | ['i', 'n', 'f', 'i', 'n', 'i', 't', 'y'] => some (.infinite negative)
  | ['n', 'a', 'n'] => some (.nan 0)
  | _ => readMagnitude negative magnitude

end LayeredConfig.Binary64
