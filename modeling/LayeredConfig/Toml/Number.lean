import LayeredConfig.Number.Decimal
import LayeredConfig.Toml.Basic

/-!
# TOML: numbers

Whole numbers are decimal, or have the mark of another base and no sign. A number with a fraction
or an exponent is a floating-point one. Single underscores may separate digits.
-/

namespace LayeredConfig.Toml

/-- Digits after the first one, each with at most one underscore before it. -/
def takeMoreDigits (isDigit : Char → Bool) : List Char → List Char × List Char
  | '_' :: c :: rest =>
    if isDigit c then
      let (digits, rest) := takeMoreDigits isDigit rest
      ('_' :: c :: digits, rest)
    else ([], '_' :: c :: rest)
  | c :: rest =>
    if isDigit c then
      let (digits, rest) := takeMoreDigits isDigit rest
      (c :: digits, rest)
    else ([], c :: rest)
  | [] => ([], [])

/-- At least one digit, with underscores between digits. -/
def takeDigits? (isDigit : Char → Bool) : List Char → Option (List Char × List Char)
  | [] => none
  | c :: rest =>
    if isDigit c then
      let (digits, rest) := takeMoreDigits isDigit rest
      some (c :: digits, rest)
    else none

def baseOf? : Char → Option Nat
  | 'x' => some 16
  | 'b' => some 2
  | 'o' => some 8
  | _ => none

def takeMarked? : List Char → Option ((Nat × List Char) × List Char)
  | '0' :: mark :: rest => do
    let base ← baseOf? mark
    let (digits, rest) ← takeDigits? (Integer.isDigitOf base) rest
    return ((base, '0' :: mark :: digits), rest)
  | _ => none

def takeSign : List Char → List Char × List Char
  | '+' :: rest => (['+'], rest)
  | '-' :: rest => (['-'], rest)
  | cs => ([], cs)

/-- The digits before the point, of which a leading zero is the only one. -/
def takeWhole? : List Char → Option (List Char × List Char)
  | '0' :: rest => some (['0'], rest)
  | cs => takeDigits? Text.isDigit cs

def takeFraction (cs : List Char) : List Char × List Char :=
  match cs with
  | '.' :: rest =>
    match takeDigits? Text.isDigit rest with
    | some (digits, rest) => ('.' :: digits, rest)
    | none => ([], cs)
  | _ => ([], cs)

def takeExponent (cs : List Char) : List Char × List Char :=
  match cs with
  | mark :: rest =>
    let (sign, digits) := takeSign rest
    if mark = 'e' || mark = 'E' then
      match takeDigits? Text.isDigit digits with
      | some (digits, rest) => (mark :: sign ++ digits, rest)
      | none => ([], cs)
    else ([], cs)
  | [] => ([], cs)

def readInteger (base : Nat) (cs : List Char) : Except Stop Leaf :=
  match Integer.read base cs with
  | .ok n => .ok (.int n)
  | .error (.tooLong n) => .error (.fault (.digitsTooMany n))
  | .error .malformed => .error (.fault (.malformedInteger base (String.ofList cs)))

def readFloat (cs : List Char) : Except Stop Leaf :=
  match Binary64.read cs with
  | some x => .ok (.float x)
  | none => .error (.fault (.malformedFloat (String.ofList cs)))

def takeNumber? (cs : List Char) : Option (Except Stop (Leaf × List Char)) :=
  match takeMarked? cs with
  | some ((base, digits), rest) => some ((readInteger base digits).map (·, rest))
  | none => do
    let (sign, magnitude) := takeSign cs
    let (whole, rest) ← takeWhole? magnitude
    let (fraction, rest) := takeFraction rest
    let (exponent, rest) := takeExponent rest
    if fraction.isEmpty && exponent.isEmpty then
      return (readInteger 10 (sign ++ whole)).map (·, rest)
    else return (readFloat (sign ++ whole ++ fraction ++ exponent)).map (·, rest)

def takeNamedNumber? (cs : List Char) : Option (Leaf × List Char) :=
  let (sign, rest) := takeSign cs
  match rest with
  | 'i' :: 'n' :: 'f' :: rest => some (.float (.infinite (sign = ['-'])), rest)
  | 'n' :: 'a' :: 'n' :: rest => some (.float (.nan 0), rest)
  | _ => none

end LayeredConfig.Toml
