import LayeredConfig.Grammar.Refusal

/-!
# JSON: problems

What can be wrong with a JSON text. A problem lies at a place that is known by how many characters
are left from there to the end.
-/

namespace LayeredConfig.Json

inductive Problem where
  | expectingValue
  | expectingName
  | expectingColon
  | expectingComma
  | extraData
  | byteOrderMark
  | controlCharacter
  | unterminatedString
  | badEscape
  | badCodeEscape
  deriving DecidableEq, Repr

def Problem.message : Problem → String
  | .expectingValue => "Expecting value"
  | .expectingName => "Expecting property name enclosed in double quotes"
  | .expectingColon => "Expecting ':' delimiter"
  | .expectingComma => "Expecting ',' delimiter"
  | .extraData => "Extra data"
  | .byteOrderMark => "Unexpected UTF-8 BOM (decode using utf-8-sig)"
  | .controlCharacter => "Invalid control character at"
  | .unterminatedString => "Unterminated string starting at"
  | .badEscape => "Invalid \\escape"
  | .badCodeEscape => "Invalid \\uXXXX escape"

inductive Stop where
  | problem (problem : Problem) (left : Nat)
  | duplicateKey (key : Text)
  | digitsTooMany (digits : Nat)
  deriving DecidableEq, Repr

def Stop.refusal (text : List Char) : Stop → Refusal
  | .problem p left => .malformed (some (Location.of text (text.length - left))) p.message
  | .duplicateKey key => .duplicateKey (.str key)
  | .digitsTooMany n => .fault (.digitsTooMany n)

/-- The characters that may stand between tokens. -/
def isSpace (c : Char) : Bool :=
  c = ' ' || c = '\t' || c = '\n' || c = '\r'

def skipSpace (cs : List Char) : List Char := cs.dropWhile isSpace

end LayeredConfig.Json
