import LayeredConfig.Grammar.Refusal

/-!
# YAML: problems

What can be wrong with a YAML text, with the wording of each problem, and the classes of characters
on which the grammar rests. The end of a text counts as the character with code zero, which no text
holds.
-/

namespace LayeredConfig.Yaml

inductive Shape where
  | scalar
  | sequence
  | mapping
  deriving DecidableEq, Repr

def Shape.name : Shape → String
  | .scalar => "scalar"
  | .sequence => "sequence"
  | .mapping => "mapping"

inductive Problem where
  -- Structure of lines
  | missingColon
  | entryNotAllowed
  | keyNotAllowed
  | valueNotAllowed
  | noToken (found : Char)
  -- Names, tags and directives
  | expectedName (found : Char)
  | expectedDigit (found : Char)
  | expectedDigitOrDot (found : Char)
  | expectedDigitOrSpace (found : Char)
  | expectedSpace (found : Char)
  | expectedComment (found : Char)
  | expectedMark (mark found : Char)
  | expectedUri (found : Char)
  | badUriEscape (found : Char)
  | notUtf8 (reason : String)
  -- Scalars
  | expectedIndicators (found : Char)
  | zeroIndentation
  | unknownEscape (found : Char)
  | badCode (width : Nat) (found : Char)
  | endInQuotes
  | separatorInQuotes
  -- Documents
  | repeatedVersion
  | incompatibleVersion
  | repeatedHandle (handle : String)
  | undefinedHandle (handle : String)
  | expectedDocument (found : String)
  | expectedContent (found : String)
  | expectedBlockEnd (found : String)
  | expectedInSequence (found : String)
  | expectedInMapping (found : String)
  | undefinedAlias (name : String)
  | repeatedAnchor
  | anotherDocument
  -- Values
  | expectedNode (wanted found : Shape)
  | expectedSequence (found : Shape)
  | expectedPair (found : Shape)
  | expectedOneItem (count : Nat)
  | unhashableKey
  | badMerge (found : Shape)
  | badMergeItem (found : Shape)
  | unknownTag (tag : String)
  | notAscii (reason : String)
  | notBase64 (reason : String)
  deriving DecidableEq, Repr

def butFound (expected : String) (found : Char) : String :=
  "expected " ++ expected ++ ", but found " ++ Text.quote (String.singleton found)

def butFoundToken (expected found : String) : String :=
  "expected " ++ expected ++ ", but found " ++ Text.quote found

def Problem.message : Problem → String
  | .missingColon => "could not find expected ':'"
  | .entryNotAllowed => "sequence entries are not allowed here"
  | .keyNotAllowed => "mapping keys are not allowed here"
  | .valueNotAllowed => "mapping values are not allowed here"
  | .noToken c =>
    "found character " ++ Text.quote (String.singleton c) ++ " that cannot start any token"
  | .expectedName c => butFound "alphabetic or numeric character" c
  | .expectedDigit c => butFound "a digit" c
  | .expectedDigitOrDot c => butFound "a digit or '.'" c
  | .expectedDigitOrSpace c => butFound "a digit or ' '" c
  | .expectedSpace c => butFound "' '" c
  | .expectedComment c => butFound "a comment or a line break" c
  | .expectedMark mark c => butFound ("'" ++ String.singleton mark ++ "'") c
  | .expectedUri c => butFound "URI" c
  | .badUriEscape c => butFound "URI escape sequence of 2 hexadecimal numbers" c
  | .notUtf8 reason => reason
  | .expectedIndicators c => butFound "chomping or indentation indicators" c
  | .zeroIndentation => "expected indentation indicator in the range 1-9, but found 0"
  | .unknownEscape c => "found unknown escape character " ++ Text.quote (String.singleton c)
  | .badCode width c =>
    butFound ("escape sequence of " ++ Integer.text width ++ " hexadecimal numbers") c
  | .endInQuotes => "found unexpected end of stream"
  | .separatorInQuotes => "found unexpected document separator"
  | .repeatedVersion => "found duplicate YAML directive"
  | .incompatibleVersion => "found incompatible YAML document (version 1.* is required)"
  | .repeatedHandle handle => "duplicate tag handle " ++ Text.quote handle
  | .undefinedHandle handle => "found undefined tag handle " ++ Text.quote handle
  | .expectedDocument found => butFoundToken "'<document start>'" found
  | .expectedContent found => butFoundToken "the node content" found
  | .expectedBlockEnd found => butFoundToken "<block end>" found
  | .expectedInSequence found => "expected ',' or ']', but got " ++ Text.quote found
  | .expectedInMapping found => "expected ',' or '\x7d', but got " ++ Text.quote found
  | .undefinedAlias name => "found undefined alias " ++ Text.quote name
  | .repeatedAnchor => "second occurrence"
  | .anotherDocument => "but found another document"
  | .expectedNode wanted found =>
    "expected a " ++ wanted.name ++ " node, but found " ++ found.name
  | .expectedSequence found => "expected a sequence, but found " ++ found.name
  | .expectedPair found => "expected a mapping of length 1, but found " ++ found.name
  | .expectedOneItem n =>
    "expected a single mapping item, but found " ++ Integer.text n ++ " items"
  | .unhashableKey => "found unhashable key"
  | .badMerge found =>
    "expected a mapping or list of mappings for merging, but found " ++ found.name
  | .badMergeItem found => "expected a mapping for merging, but found " ++ found.name
  | .unknownTag tag => "could not determine a constructor for the tag " ++ Text.quote tag
  | .notAscii reason => "failed to convert base64 data into ascii: " ++ reason
  | .notBase64 reason => "failed to decode base64 data: " ++ reason

inductive Stop where
  | problem (problem : Problem) (place : Location)
  /-- A character that no text may hold, by its code and its position. -/
  | unacceptable (code position : Nat)
  | duplicateKey (key : Scalar)
  | fault (fault : Fault)
  deriving DecidableEq, Repr

def Stop.refusal : Stop → Refusal
  | .problem p place => .malformed (some place) p.message
  | .unacceptable code position => .malformed none <|
    "unacceptable character #x" ++ String.ofList (Text.hexDigits 4 code) ++
      ": special characters are not allowed\n  in \"<unicode string>\", position " ++
      Integer.text position
  | .duplicateKey key => .duplicateKey key
  | .fault f => .fault f

-- ---------------------------------------------------------------------------
-- Characters
-- ---------------------------------------------------------------------------

def endMark : Char := '\x00'

/-- A character that a text may hold. -/
def isAcceptable (c : Char) : Bool :=
  let n := c.toNat
  c = '\t' || c = '\n' || c = '\r' || (0x20 ≤ n && n ≤ 0x7e) || n == 0x85 ||
    (0xa0 ≤ n && n ≤ 0xfffd) || 0x10000 ≤ n

def isBreak (c : Char) : Bool :=
  c = '\n' || c = '\r' || c = '\u0085' || c = '\u2028' || c = '\u2029'

def isBreakOrEnd (c : Char) : Bool := isBreak c || c = endMark

def isSpaceOrEnd (c : Char) : Bool := isBreakOrEnd c || c = ' '

def isBlankOrEnd (c : Char) : Bool := isSpaceOrEnd c || c = '\t'

def isNameChar (c : Char) : Bool :=
  Text.isDigit c || ('a' ≤ c && c ≤ 'z') || ('A' ≤ c && c ≤ 'Z') || c = '-' || c = '_'

def isUriChar (c : Char) : Bool :=
  isNameChar c || [';', '/', '?', ':', '@', '&', '=', '+', '$', ',', '.', '!', '~', '*', '\'',
    '(', ')', '[', ']', '%'].contains c

def isFlowMark (c : Char) : Bool :=
  c = ',' || c = '[' || c = ']' || c = '{' || c = '}'

end LayeredConfig.Yaml
