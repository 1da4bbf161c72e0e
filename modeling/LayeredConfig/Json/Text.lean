import LayeredConfig.Json.Basic
import LayeredConfig.Text.Quoted

/-!
# JSON: strings

Strings stand between double quotes. Control characters have to be escaped. Characters beyond the
first sixty-five thousand are escaped as the two halves of a surrogate pair; half a pair alone
stands for itself.
-/

namespace LayeredConfig.Json

def unescape? : Char → Option Char
  | '"' => some '"'
  | '\\' => some '\\'
  | '/' => some '/'
  | 'b' => some '\x08'
  | 'f' => some '\x0c'
  | 'n' => some '\n'
  | 'r' => some '\r'
  | 't' => some '\t'
  | _ => none

/-- The number that four hexadecimal digits denote, and what follows them. -/
def takeCode : List Char → Option (Nat × List Char)
  | a :: b :: c :: d :: rest => do
    return (Text.ofDigits 16
      [← Text.hexValue? a, ← Text.hexValue? b, ← Text.hexValue? c, ← Text.hexValue? d], rest)
  | _ => none

def isHighSurrogate (n : Nat) : Bool := 0xd800 ≤ n && n ≤ 0xdbff

def isLowSurrogate (n : Nat) : Bool := 0xdc00 ≤ n && n ≤ 0xdfff

/-- The code point that the two halves of a pair stand for. -/
def joinSurrogates (high low : Nat) : Nat :=
  0x10000 + (high - 0xd800) * 0x400 + (low - 0xdc00)

/-- The code point of an escape by code, from behind its `u` on. An escape is complete only when
another character follows it. -/
def takeCodeEscape (cs : List Char) : Except Stop (CodePoint × List Char) :=
  let bad (cs : List Char) : Stop := .problem .badCodeEscape (cs.length + 1)
  match takeCode cs with
  | none | some (_, []) => .error (bad cs)
  | some (n, '\\' :: 'u' :: next) =>
    if isHighSurrogate n && 4 < next.length then
      match takeCode next with
      | none => .error (bad next)
      | some (m, rest) =>
        if isLowSurrogate m then .ok (.ofNat (joinSurrogates n m), rest)
        else .ok (.ofNat n, '\\' :: 'u' :: next)
    else .ok (.ofNat n, '\\' :: 'u' :: next)
  | some (n, rest) => .ok (.ofNat n, rest)

/-- The code point of an escape, from behind its backslash on. `start` counts the characters from
the opening quote of the string on. -/
def takeEscape (start : Nat) : List Char → Except Stop (CodePoint × List Char)
  | [] => .error (.problem .unterminatedString start)
  | 'u' :: rest => takeCodeEscape rest
  | c :: rest =>
    match unescape? c with
    | some e => .ok (e, rest)
    | none => .error (.problem .badEscape (rest.length + 2))

/-- The code points of a string up to its closing quote, and what follows that. `fuel` bounds their
number. -/
def takePoints (start : Nat) : (fuel : Nat) → List Char → Except Stop (List CodePoint × List Char)
  | 0, _ => .error (.problem .unterminatedString start)
  | _, [] => .error (.problem .unterminatedString start)
  | _ + 1, '"' :: rest => .ok ([], rest)
  | fuel + 1, '\\' :: rest => do
    let (p, rest) ← takeEscape start rest
    let (ps, rest) ← takePoints start fuel rest
    return (p :: ps, rest)
  | fuel + 1, c :: rest =>
    if c < ' ' then .error (.problem .controlCharacter (rest.length + 1))
    else do
      let (ps, rest) ← takePoints start fuel rest
      return (.char c :: ps, rest)

def takeString (cs : List Char) : Except Stop (Text × List Char) := do
  let (points, rest) ← takePoints (cs.length + 1) (cs.length + 1) cs
  return (⟨points⟩, rest)

-- ---------------------------------------------------------------------------
-- Writing
-- ---------------------------------------------------------------------------

def escapeUnit (n : Nat) : List Char := '\\' :: 'u' :: Text.hexDigits 4 n

/-- A character as it is written in a string: ASCII that prints as it is, everything else
escaped. -/
def writeChar (c : Char) : List Char :=
  if c = '"' || c = '\\' then ['\\', c]
  else if ' ' ≤ c && c ≤ '~' then [c]
  else if c = '\n' then ['\\', 'n']
  else if c = '\r' then ['\\', 'r']
  else if c = '\t' then ['\\', 't']
  else if c = '\x0c' then ['\\', 'f']
  else if c = '\x08' then ['\\', 'b']
  else if c.toNat < 0x10000 then escapeUnit c.toNat
  else
    let n := c.toNat - 0x10000
    escapeUnit (0xd800 + n / 0x400) ++ escapeUnit (0xdc00 + n % 0x400)

def writePoint : CodePoint → List Char
  | .char c => writeChar c
  | .half n => escapeUnit (CodePoint.half n).toNat

def writeString (t : Text) : List Char :=
  '"' :: t.points.flatMap writePoint ++ ['"']

end LayeredConfig.Json
