import LayeredConfig.Text.Blank
import LayeredConfig.Text.Digit

/-!
# Whole numbers as text

Reading a whole number is generous: blanks around it, a sign, the prefix of its base, single
underscores between digits and the digits of any script are accepted. Decimal text is limited in
length in both directions, because converting it takes time quadratic in the number of digits.
-/

namespace LayeredConfig.Integer

open Text (isDigit hexValue? digitValue? ofDigits isBlank)

/-- The most decimal digits that are read or written. -/
def digitLimit : Nat := 4300

/-- The blanks of ASCII. -/
def isAsciiBlank (c : Char) : Bool :=
  c = ' ' || ('\t' ≤ c && c ≤ '\r')

/-- Digits and blanks of any script in ASCII. A text that is ASCII already stays as it is; a
character that is neither becomes one that no number holds. -/
def toAscii (cs : List Char) : List Char :=
  if cs.all (·.toNat < 128) then cs
  else cs.map fun c =>
    if c.toNat < 127 then c
    else if isBlank c then ' '
    else match digitValue? c with
      | some d => Char.ofNat ('0'.toNat + d)
      | none => '?'

def takeSign : List Char → Bool × List Char
  | '-' :: rest => (true, rest)
  | '+' :: rest => (false, rest)
  | cs => (false, cs)

/-- The letter that marks a base after a leading zero. -/
def baseLetter? : Nat → Option Char
  | 2 => some 'b'
  | 8 => some 'o'
  | 16 => some 'x'
  | _ => none

/-- Drops the mark of the base and one underscore behind it. -/
def dropBaseMark (base : Nat) : List Char → List Char
  | '0' :: c :: rest =>
    if baseLetter? base = some c.toLower then
      match rest with
      | '_' :: rest => rest
      | rest => rest
    else '0' :: c :: rest
  | cs => cs

def isDigitOf (base : Nat) (c : Char) : Bool :=
  (hexValue? c).any (· < base)

/-- Every underscore stands between two digits, and there is a digit. -/
def wellSeparated : List Char → Bool
  | [] => false
  | ['_'] => false
  | [_] => true
  | '_' :: _ => false
  | _ :: '_' :: '_' :: _ => false
  | _ :: '_' :: rest => wellSeparated rest
  | _ :: c :: rest => wellSeparated (c :: rest)

inductive ReadFailure where
  | malformed
  | tooLong (digits : Nat)
  deriving DecidableEq, Repr

/-- The number that a text denotes in `base`, which is 2, 8, 10 or 16. -/
def read (base : Nat) (cs : List Char) : Except ReadFailure Int :=
  let (negative, cs) := takeSign ((toAscii cs).dropWhile isAsciiBlank)
  let cs := dropBaseMark base cs
  let run := cs.takeWhile fun c => c = '_' || isDigitOf base c
  let digits := run.filter (· ≠ '_')
  if !wellSeparated run then .error .malformed
  else if base = 10 && digitLimit < digits.length then .error (.tooLong digits.length)
  else if !(cs.drop run.length).all isAsciiBlank then .error .malformed
  else
    let n := ofDigits base (digits.filterMap hexValue?)
    .ok (if negative then -(n : Int) else n)

def text (n : Int) : String :=
  (if n < 0 then "-" else "") ++ String.ofList (Nat.toDigits 10 n.natAbs)

def text? (n : Int) : Option String :=
  if n.natAbs < Nat.pow 10 digitLimit then some (text n) else none

end LayeredConfig.Integer
