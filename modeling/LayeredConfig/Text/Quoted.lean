import LayeredConfig.Text.Basic
import LayeredConfig.Text.Printable

/-!
# Quoted text

How messages show a text: between quotes on one line. Single quotes are used unless the text holds
one and no double quote. A backslash, the quote in use and the characters that do not print are
escaped; everything else stands as it is.
-/

namespace LayeredConfig.Text

def hexDigits (width n : Nat) : List Char :=
  let digits := Nat.toDigits 16 n
  List.replicate (width - digits.length) '0' ++ digits

/-- A code point escaped with the shortest of the three numeric escapes. -/
def escapeCode (n : Nat) : List Char :=
  if n < 0x100 then '\\' :: 'x' :: hexDigits 2 n
  else if n < 0x10000 then '\\' :: 'u' :: hexDigits 4 n
  else '\\' :: 'U' :: hexDigits 8 n

/-- One character of a text between two `quote` characters. -/
def quoteChar (quote c : Char) : List Char :=
  if c = quote || c = '\\' then ['\\', c]
  else if c = '\n' then ['\\', 'n']
  else if c = '\r' then ['\\', 'r']
  else if c = '\t' then ['\\', 't']
  else if isPrintable c then [c]
  else escapeCode c.toNat

/-- Half of a surrogate pair does not print. -/
def quotePoint (quote : Char) : CodePoint → List Char
  | .char c => quoteChar quote c
  | .half n => escapeCode (CodePoint.half n).toNat

/-- The quote that needs fewer escapes; the single quote when both or neither occur. -/
def quoteFor (t : Text) : Char :=
  if t.points.contains (.char '\'') && !t.points.contains (.char '"') then '"' else '\''

def quote (t : Text) : String :=
  let quote := quoteFor t
  String.ofList (quote :: t.points.flatMap (quotePoint quote) ++ [quote])

/-- A text in characters, with its halves escaped. -/
def escaped (t : Text) : String :=
  String.ofList <| t.points.flatMap fun
    | .char c => [c]
    | p => escapeCode p.toNat

/-- Bytes as messages show them: ASCII characters as in a text, every other byte by its number. -/
def quoteBytes (bytes : List UInt8) : String :=
  let cs := bytes.map fun b => Char.ofNat b.toNat
  let mark := quoteFor ⟨cs.map .char⟩
  let shown (c : Char) : List Char :=
    if c.toNat < 0x80 then quoteChar mark c else escapeCode c.toNat
  String.ofList ('b' :: mark :: cs.flatMap shown ++ [mark])

end LayeredConfig.Text
