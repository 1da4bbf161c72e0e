import LayeredConfig.Grammar.Refusal

/-!
# TOML: problems

What can be wrong with a TOML text. A problem lies at a place that is known by how many characters
are left from there to the end; one that lies at the end is reported without line and column.
-/

namespace LayeredConfig.Toml

inductive Problem where
  | invalidStatement
  | expectedEndOfStatement
  | expectedEquals
  | invalidKeyStart
  | invalidValue
  | invalidMoment
  | declaredTwice (key : List String)
  | immutable (key : List String)
  | redefined (key : List String)
  | overwritten
  | repeatedInlineKey (key : String)
  | unclosedArray
  | unclosedInlineTable
  | expectedTableEnd
  | expectedArrayTableEnd
  | unterminatedString
  | expected (delimiter : String)
  | illegalCharacter (c : Char)
  | invalidCharacter (c : Char)
  | badEscape
  | badHexadecimal
  | noCharacter
  deriving DecidableEq, Repr

/-- A key as messages show it: its parts in quotes, in parentheses. -/
def shownKey (key : List String) : String :=
  let parts := key.map fun part : String => Text.quote part
  "(" ++ ", ".intercalate parts ++ (if parts.length = 1 then ",)" else ")")

def Problem.message : Problem → String
  | .invalidStatement => "Invalid statement"
  | .expectedEndOfStatement => "Expected newline or end of document after a statement"
  | .expectedEquals => "Expected '=' after a key in a key/value pair"
  | .invalidKeyStart => "Invalid initial character for a key part"
  | .invalidValue => "Invalid value"
  | .invalidMoment => "Invalid date or datetime"
  | .declaredTwice key => "Cannot declare " ++ shownKey key ++ " twice"
  | .immutable key => "Cannot mutate immutable namespace " ++ shownKey key
  | .redefined key => "Cannot redefine namespace " ++ shownKey key
  | .overwritten => "Cannot overwrite a value"
  | .repeatedInlineKey key => "Duplicate inline table key " ++ Text.quote key
  | .unclosedArray => "Unclosed array"
  | .unclosedInlineTable => "Unclosed inline table"
  | .expectedTableEnd => "Expected ']' at the end of a table declaration"
  | .expectedArrayTableEnd => "Expected ']]' at the end of an array declaration"
  | .unterminatedString => "Unterminated string"
  | .expected delimiter => "Expected " ++ Text.quote delimiter
  | .illegalCharacter c => "Illegal character " ++ Text.quote (String.singleton c)
  | .invalidCharacter c => "Found invalid character " ++ Text.quote (String.singleton c)
  | .badEscape => "Unescaped '\\' in a string"
  | .badHexadecimal => "Invalid hex value"
  | .noCharacter => "Escaped character is not a Unicode scalar value"

inductive Stop where
  | problem (problem : Problem) (left : Nat)
  | fault (fault : Fault)
  deriving DecidableEq, Repr

def Stop.refusal (text : List Char) : Stop → Refusal
  | .problem p 0 => .malformed none (p.message ++ " (at end of document)")
  | .problem p left => .malformed (some (Location.of text (text.length - left))) p.message
  | .fault f => .fault f

def problemAt {α : Type} (p : Problem) (cs : List Char) : Except Stop α :=
  .error (.problem p cs.length)

-- ---------------------------------------------------------------------------
-- Blanks and comments
-- ---------------------------------------------------------------------------

def isSpace (c : Char) : Bool := c = ' ' || c = '\t'

def skipSpace (cs : List Char) : List Char := cs.dropWhile isSpace

def skipLines (cs : List Char) : List Char := cs.dropWhile fun c => isSpace c || c = '\n'

def isControl (c : Char) : Bool := (c < ' ' && c ≠ '\t') || c = '\x7f'

/-- The first of `span` that is not allowed is the problem, where `cs` starts with `span`. -/
def refuse (isIllegal : Char → Bool) (span cs : List Char) : Except Stop Unit :=
  match (span.dropWhile (!isIllegal ·)).head? with
  | none => .ok ()
  | some c => problemAt (.invalidCharacter c) (cs.drop (span.takeWhile (!isIllegal ·)).length)

/-- What follows a comment, if one stands at the front. -/
def skipComment : List Char → Except Stop (List Char)
  | '#' :: rest => do
    refuse isControl (rest.takeWhile (· ≠ '\n')) rest
    return rest.dropWhile (· ≠ '\n')
  | cs => .ok cs

/-- What follows the spaces, line ends and comments between the items of an array. `fuel` bounds
the number of comments. -/
def skipBetween : (fuel : Nat) → List Char → Except Stop (List Char)
  | 0, cs => .ok cs
  | fuel + 1, cs => do
    let rest ← skipComment (skipLines cs)
    if rest.length = cs.length then return rest else skipBetween fuel rest

def skipItemSpace (cs : List Char) : Except Stop (List Char) := skipBetween (cs.length + 1) cs

end LayeredConfig.Toml
