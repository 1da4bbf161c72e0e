import LayeredConfig.Text.Encoding
import LayeredConfig.Yaml.Token

/-!
# YAML: names, tags and directives

Anchors and aliases have names of ASCII letters, digits, hyphens and underscores. A tag is written
in full between angle brackets, or as a handle with a suffix. Bytes of characters beyond ASCII stand
in a tag as two hexadecimal digits behind a percent sign.
-/

namespace LayeredConfig.Yaml

open Cursor

def takeName (c : Cursor) : Except Stop (String × Cursor) :=
  let (name, rest) := c.take isNameChar
  if name.isEmpty then c.stop (.expectedName c.peek) else .ok (String.ofList name, rest)

def endsName (c : Char) : Bool :=
  isBlankOrEnd c || ['?', ':', ',', ']', '}', '%', '@', '`'].contains c

def takeAnchor (symbol : String → Symbol) (c : Cursor) : Except Stop (Token × Cursor) := do
  let (name, rest) ← takeName c.next
  if endsName rest.peek then return (⟨symbol name, c.place, rest.place⟩, rest)
  else rest.stop (.expectedName rest.peek)

-- ---------------------------------------------------------------------------
-- Tags
-- ---------------------------------------------------------------------------

/-- The bytes of consecutive escapes. `fuel` bounds their number. -/
def takeEscapedBytes : (fuel : Nat) → Cursor → Except Stop (List UInt8 × Cursor)
  | 0, c => .ok ([], c)
  | fuel + 1, c =>
    if c.peek ≠ '%' then .ok ([], c)
    else
      let c := c.next
      match Text.hexValue? c.peek, Text.hexValue? (c.peekAt 1) with
      | none, _ => c.stop (.badUriEscape c.peek)
      | _, none => c.stop (.badUriEscape (c.peekAt 1))
      | some high, some low => do
        let (bytes, c) ← takeEscapedBytes fuel (c.advance 2)
        return (UInt8.ofNat (high * 16 + low) :: bytes, c)

/-- The characters of a tag, in which escapes stand for bytes. `fuel` bounds the number of runs of
escapes. -/
def takeUriParts : (fuel : Nat) → Cursor → Except Stop (List Char × Cursor)
  | 0, c => .ok ([], c)
  | fuel + 1, c => do
    let (run, c) := c.take fun ch => isUriChar ch && ch ≠ '%'
    if c.peek ≠ '%' then return (run, c)
    else
      let (bytes, after) ← takeEscapedBytes (c.rest.length + 1) c
      match Encoding.decode .utf8 bytes with
      | .error r => c.stop (.notUtf8 r.message)
      | .ok here => do
        let (more, c) ← takeUriParts fuel after
        return (run ++ here ++ more, c)

def takeUri (c : Cursor) : Except Stop (String × Cursor) := do
  if !isUriChar c.peek then c.stop (.expectedUri c.peek)
  let (uri, rest) ← takeUriParts (c.rest.length + 1) c
  return (String.ofList uri, rest)

/-- A handle: one exclamation mark, or a name between two. -/
def takeHandle (c : Cursor) : Except Stop (String × Cursor) :=
  if c.peek ≠ '!' then c.stop (.expectedMark '!' c.peek)
  else if c.peekAt 1 = ' ' then .ok ("!", c.next)
  else
    let (name, rest) := c.next.take isNameChar
    if rest.peek = '!' then .ok ("!" ++ String.ofList name ++ "!", rest.next)
    else rest.stop (.expectedMark '!' rest.peek)

def takeTag (c : Cursor) : Except Stop (Token × Cursor) := do
  let (handle, suffix, rest) ←
    if c.peekAt 1 = '<' then do
      let (uri, rest) ← takeUri (c.advance 2)
      if rest.peek ≠ '>' then rest.stop (.expectedMark '>' rest.peek)
      pure (none, uri, rest.next)
    else if isBlankOrEnd (c.peekAt 1) then pure (none, "!", c.next)
    else do
      let word := c.next.rest.takeWhile (!isSpaceOrEnd ·)
      let (handle, rest) ← if word.contains '!' then takeHandle c else pure ("!", c.next)
      let (suffix, rest) ← takeUri rest
      pure (some handle, suffix, rest)
  if !isSpaceOrEnd rest.peek then rest.stop (.expectedSpace rest.peek)
  return (⟨.tag handle suffix, c.place, rest.place⟩, rest)

-- ---------------------------------------------------------------------------
-- Directives
-- ---------------------------------------------------------------------------

def takeVersionNumber (c : Cursor) : Except Stop (Nat × Cursor) :=
  let (digits, rest) := c.take Text.isDigit
  if digits.isEmpty then c.stop (.expectedDigit c.peek)
  else match Integer.read 10 digits with
    | .ok n => .ok (n.toNat, rest)
    | .error (.tooLong n) => .error (.fault (.digitsTooMany n))
    | .error .malformed => .error (.fault (.malformedInteger 10 (String.ofList digits)))

def takeVersion (c : Cursor) : Except Stop (Directive × Cursor) := do
  let (major, c) ← takeVersionNumber c.skipSpaces
  if c.peek ≠ '.' then c.stop (.expectedDigitOrDot c.peek)
  let (minor, c) ← takeVersionNumber c.next
  if !isSpaceOrEnd c.peek then c.stop (.expectedDigitOrSpace c.peek)
  return (.version major minor, c)

def takeHandleDefinition (c : Cursor) : Except Stop (Directive × Cursor) := do
  let (handle, c) ← takeHandle c.skipSpaces
  if c.peek ≠ ' ' then c.stop (.expectedSpace c.peek)
  let (uri, c) ← takeUri c.skipSpaces
  if !isSpaceOrEnd c.peek then c.stop (.expectedSpace c.peek)
  return (.handle handle uri, c)

def takeDirective (c : Cursor) : Except Stop (Token × Cursor) := do
  let (name, rest) ← takeName c.next
  if !isSpaceOrEnd rest.peek then rest.stop (.expectedName rest.peek)
  let (directive, rest) ←
    if name = "YAML" then takeVersion rest
    else if name = "TAG" then takeHandleDefinition rest
    else pure (.other name, rest.skip (!isBreakOrEnd ·))
  return (⟨.directive directive, c.place, rest.place⟩, ← rest.skipRestOfLine)

end LayeredConfig.Yaml
