import LayeredConfig.Error
import LayeredConfig.Path.Basic
import LayeredConfig.Text.Scan

/-!
# Paths as text

A path is written as its keys with dots between them and its positions in brackets, as in
`database.servers[0].host`. Reading accepts a dot before a bracket too. Keys that are empty or hold
a dot or a bracket can be written but not read back.
-/

namespace LayeredConfig

def Segment.text : Segment → Text
  | .key name => name
  | .index position => "[" ++ Integer.text position ++ "]"

namespace Path

/-- The steps after the first: a dot introduces a key. -/
def textAfter : List Segment → Text
  | [] => ""
  | .key name :: rest => "." ++ name ++ textAfter rest
  | .index position :: rest => (Segment.index position).text ++ textAfter rest

def text (p : Path) : Text :=
  match p.segments with
  | [] => ""
  | first :: rest => first.text ++ textAfter rest

inductive Malformed where
  | unterminatedIndex
  | badIndex (digits : Text)
  | indexTooLong (digits : Nat)
  | emptyKey
  | missingSeparator
  | unbalanced
  deriving DecidableEq, Repr

/-- What may come next: the key that the start or a dot calls for, or a dot or bracket. -/
inductive Expected where
  | key
  | separator
  deriving DecidableEq, Repr

/-- Ends a key; a bracket closes only what a bracket opened. -/
def endsKey (c : CodePoint) : Bool :=
  c = '.' || c = '[' || c = ']'

/-- The position between brackets: ASCII digits and nothing else. -/
def readIndex (text : Text) : Except Malformed Nat :=
  let digits := text.legible
  if digits.isEmpty || !digits.all Text.isDigit then .error (.badIndex text)
  else if Integer.digitLimit < digits.length then .error (.indexTooLong digits.length)
  else .ok (Text.ofDigits 10 (digits.filterMap Text.hexValue?))

/-- The segments that the rest of a text denotes. -/
def readSegments (expected : Expected) (cs : List CodePoint) : Except Malformed (List Segment) :=
  match cs with
  | [] => .ok []
  | '[' :: rest =>
    let digits := rest.takeWhile (· ≠ .char ']')
    match h : rest.drop digits.length with
    | [] => .error .unterminatedIndex
    | _ :: after => do
      have : after.length < rest.length := by
        have := congrArg List.length h
        simp at this
        omega
      let position ← readIndex ⟨digits⟩
      return .index position :: (← readSegments .separator after)
  | '.' :: rest =>
    if expected = .key || rest.isEmpty then .error .emptyKey else readSegments .key rest
  | c :: rest =>
    if expected = .separator then .error .missingSeparator
    else
      let name := c :: rest.takeWhile (!endsKey ·)
      if c = ']' || (rest.dropWhile (!endsKey ·)).head? = some (.char ']') then .error .unbalanced
      else do
        have := Text.length_dropWhile_le (!endsKey ·) rest
        let after ← readSegments .separator (rest.dropWhile (!endsKey ·))
        return .key ⟨name⟩ :: after
termination_by cs.length

def Malformed.failure (text : Text) : Malformed → Failure
  | .unterminatedIndex => .config (.invalidPath text "unterminated index")
  | .badIndex digits => .config <| .invalidPath text <|
    "index must be a non-negative integer, got " ++ Text.quote digits
  | .indexTooLong n => .fault (.digitsTooMany n)
  | .emptyKey => .config (.invalidPath text "empty key segment")
  | .missingSeparator => .config (.invalidPath text "expected '.' or '[' after index")
  | .unbalanced => .config (.invalidPath text "unbalanced ']'")

/-- Reads a path; the empty text is the root. -/
def read (text : Text) : Except Failure Path :=
  match readSegments .key text.points with
  | .ok segments => .ok ⟨segments⟩
  | .error e => .error (e.failure text)

end Path

end LayeredConfig
