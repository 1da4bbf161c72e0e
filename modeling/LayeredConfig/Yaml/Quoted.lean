import LayeredConfig.Yaml.Token

/-!
# YAML: scalars in quotes

In single quotes a quote is written twice and nothing else is special. In double quotes a backslash
starts an escape, or at the end of a line joins it to the next one. A line break becomes a space,
more of them lose the first.
-/

namespace LayeredConfig.Yaml

def unescape? : Char → Option Char
  | '0' => some '\x00'
  | 'a' => some '\x07'
  | 'b' => some '\x08'
  | 't' => some '\t'
  | '\t' => some '\t'
  | 'n' => some '\n'
  | 'v' => some '\x0b'
  | 'f' => some '\x0c'
  | 'r' => some '\r'
  | 'e' => some '\x1b'
  | ' ' => some ' '
  | '"' => some '"'
  | '\\' => some '\\'
  | '/' => some '/'
  | 'N' => some '\u0085'
  | '_' => some '\u00a0'
  | 'L' => some '\u2028'
  | 'P' => some '\u2029'
  | _ => none

def codeWidth? : Char → Option Nat
  | 'x' => some 2
  | 'u' => some 4
  | 'U' => some 8
  | _ => none

def pointOfCode (n : Nat) : Except Fault CodePoint :=
  if 0x7fffffff < n then .error .codeTooLarge
  else if 0x10ffff < n then .error .codeOutOfRange
  else .ok (.ofNat n)

def takeCode (width : Nat) (c : Cursor) : Except Stop (CodePoint × Cursor) :=
  let digits := (c.rest.take width).takeWhile fun ch => (Text.hexValue? ch).isSome
  if digits.length < width then c.stop (.badCode width (c.peekAt digits.length))
  else match pointOfCode (Text.ofDigits 16 (digits.filterMap Text.hexValue?)) with
    | .ok p => .ok (p, c.advance width)
    | .error f => .error (.fault f)

/-- The line breaks that follow, without the blanks around them. `fuel` bounds their number. -/
def takeQuotedBreaks : (fuel : Nat) → Cursor → Except Stop (List Char × Cursor)
  | 0, c => .ok ([], c)
  | fuel + 1, c =>
    if c.atSeparator then c.stop .separatorInQuotes
    else
      let c := c.skip fun ch => ch = ' ' || ch = '\t'
      if isBreak c.peek then do
        let (here, c) := c.takeBreak
        let (more, c) ← takeQuotedBreaks fuel c
        return (here ++ more, c)
      else .ok ([], c)

def takeEscape (c : Cursor) : Except Stop (List CodePoint × Cursor) :=
  match unescape? c.peek, codeWidth? c.peek with
  | some ch, _ => .ok ([↑ch], c.next)
  | none, some width => do
    let (p, c) ← takeCode width c.next
    return ([p], c)
  | none, none =>
    if isBreak c.peek then do
      let (breaks, c) ← takeQuotedBreaks (c.rest.length + 1) c.skipBreak
      return (breaks.map .char, c)
    else c.stop (.unknownEscape c.peek)

/-- The text up to the next blank or the closing quote. `fuel` bounds the number of escapes. -/
def takeQuotedWord (double : Bool) : (fuel : Nat) → Cursor → Except Stop (List CodePoint × Cursor)
  | 0, c => .ok ([], c)
  | fuel + 1, c => do
    let (run, c) := c.take fun ch => !(isBlankOrEnd ch || ch = '\'' || ch = '"' || ch = '\\')
    let run := run.map CodePoint.char
    let ch := c.peek
    if !double && ch = '\'' && c.peekAt 1 = '\'' then
      let (more, c) ← takeQuotedWord double fuel (c.advance 2)
      return (run ++ .char '\'' :: more, c)
    else if (double && ch = '\'') || (!double && (ch = '"' || ch = '\\')) then
      let (more, c) ← takeQuotedWord double fuel c.next
      return (run ++ .char ch :: more, c)
    else if double && ch = '\\' then
      let (here, c) ← takeEscape c.next
      let (more, c) ← takeQuotedWord double fuel c
      return (run ++ here ++ more, c)
    else return (run, c)

def takeQuotedGap (c : Cursor) : Except Stop (List Char × Cursor) := do
  let (blanks, c) := c.take fun ch => ch = ' ' || ch = '\t'
  if c.atEnd then c.stop .endInQuotes
  else if isBreak c.peek then
    let (lineBreak, c) := c.takeBreak
    let (breaks, c) ← takeQuotedBreaks (c.rest.length + 1) c
    let first := if lineBreak ≠ ['\n'] then lineBreak else if breaks.isEmpty then [' '] else []
    return (first ++ breaks, c)
  else return (blanks, c)

/-- The words and blanks up to the closing quote. `fuel` bounds the number of words. -/
def takeQuotedText (quote : Char) : (fuel : Nat) → Cursor → Except Stop (List CodePoint × Cursor)
  | 0, c => c.stop .endInQuotes
  | fuel + 1, c => do
    let (word, c) ← takeQuotedWord (quote = '"') (c.rest.length + 1) c
    if c.peek = quote then return (word, c.next)
    else
      let (gap, c) ← takeQuotedGap c
      let (more, c) ← takeQuotedText quote fuel c
      return (word ++ gap.map .char ++ more, c)

def takeQuoted (c : Cursor) : Except Stop (Token × Cursor) := do
  let (text, rest) ← takeQuotedText c.peek (c.rest.length + 1) c.next
  return (⟨.scalar ⟨text⟩ false, c.place, rest.place⟩, rest)

end LayeredConfig.Yaml
