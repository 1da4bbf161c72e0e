import LayeredConfig.Yaml.Token

/-!
# YAML: block scalars

The indented lines behind a bar stand as they are; behind an angle bracket, single line breaks
between lines of text become spaces. The header may say how the text is indented and whether the
line breaks at its end are kept, dropped or, as by default, reduced to one.
-/

namespace LayeredConfig.Yaml

/-- What becomes of the line breaks at the end of a block scalar. -/
inductive Chomping where
  | strip
  | clip
  | keep
  deriving DecidableEq, Repr

def takeChomping (c : Cursor) : Option Chomping × Cursor :=
  if c.peek = '+' then (some .keep, c.next)
  else if c.peek = '-' then (some .strip, c.next)
  else (none, c)

def takeIncrement (c : Cursor) : Except Stop (Option Nat × Cursor) :=
  if !Text.isDigit c.peek then .ok (none, c)
  else if c.peek = '0' then c.stop .zeroIndentation
  else .ok (Text.hexValue? c.peek, c.next)

def takeIndicators (c : Cursor) : Except Stop ((Chomping × Option Nat) × Cursor) := do
  let (before, c) := takeChomping c
  let (increment, c) ← takeIncrement c
  let (after, c) := if before.isNone && increment.isSome then takeChomping c else (none, c)
  if !isSpaceOrEnd c.peek then c.stop (.expectedIndicators c.peek)
  return (((before.or after).getD .clip, increment), c)

/-- The empty lines at the start, and the greatest indentation among them and the first line with
text. `fuel` bounds the number of blanks. -/
def takeLeadingBreaks : (fuel deepest : Nat) → Cursor → (List Char × Nat) × Cursor
  | 0, deepest, c => (([], deepest), c)
  | fuel + 1, deepest, c =>
    if c.peek = ' ' then takeLeadingBreaks fuel (max deepest c.next.column) c.next
    else if isBreak c.peek then
      let (here, c) := c.takeBreak
      let ((more, deepest), c) := takeLeadingBreaks fuel deepest c
      ((here ++ more, deepest), c)
    else (([], deepest), c)

/-- Spaces up to an indentation. `fuel` bounds their number. -/
def skipIndent (indent : Nat) : (fuel : Nat) → Cursor → Cursor
  | 0, c => c
  | fuel + 1, c =>
    if c.column < indent && c.peek = ' ' then skipIndent indent fuel c.next else c

/-- The empty lines that follow, up to the indentation of the line behind them. `fuel` bounds the
number of lines. -/
def takeBlockBreaks (indent : Nat) : (fuel : Nat) → Cursor → List Char × Cursor
  | 0, c => ([], c)
  | fuel + 1, c =>
    let c := skipIndent indent (indent + 1) c
    if isBreak c.peek then
      let (here, c) := c.takeBreak
      let (more, c) := takeBlockBreaks indent fuel c
      (here ++ more, c)
    else ([], c)

def inBlock (indent : Nat) (c : Cursor) : Bool := c.column = indent && !c.atEnd

/-- The text of the lines from one with text on, the line break at its end, and the empty lines
behind it. -/
structure BlockText where
  text : List Char
  lineBreak : List Char
  breaks : List Char
  cursor : Cursor

/-- Reads lines as long as they are indented. `breaks` are the empty lines before. `fuel` bounds the
number of lines. -/
def takeBlockLines (folded : Bool) (indent : Nat) : (fuel : Nat) → (breaks : List Char) →
    Cursor → BlockText
  | 0, breaks, c => ⟨[], [], breaks, c⟩
  | fuel + 1, breaks, c =>
    if !inBlock indent c then ⟨[], [], breaks, c⟩
    else
      let isText (c : Cursor) : Bool := c.peek ≠ ' ' && c.peek ≠ '\t'
      let (line, after) := c.take (!isBreakOrEnd ·)
      let (lineBreak, after) := after.takeBreak
      let (next, after) := takeBlockBreaks indent (after.rest.length + 1) after
      if inBlock indent after then
        let joint :=
          if folded && lineBreak = ['\n'] && isText c && isText after then
            (if next.isEmpty then [' '] else [])
          else lineBreak
        let more := takeBlockLines folded indent fuel next after
        { more with text := breaks ++ line ++ joint ++ more.text }
      else ⟨breaks ++ line, lineBreak, next, after⟩

def takeBlock (outer : Int) (c : Cursor) : Except Stop (Token × Cursor) := do
  let folded := c.peek = '>'
  let ((chomping, increment), header) ← takeIndicators c.next
  let first ← header.skipRestOfLine
  let least := max 1 (outer + 1).toNat
  let fuel := first.rest.length + 1
  let (indent, breaks, body) := match increment with
    | some n =>
      let indent := least + n - 1
      let (breaks, body) := takeBlockBreaks indent fuel first
      (indent, breaks, body)
    | none =>
      let ((breaks, deepest), body) := takeLeadingBreaks fuel 0 first
      (max least deepest, breaks, body)
  let found := takeBlockLines folded indent fuel breaks body
  let tail := match chomping with
    | .strip => []
    | .clip => found.lineBreak
    | .keep => found.lineBreak ++ found.breaks
  return (⟨.scalar (String.ofList (found.text ++ tail)) false, c.place, found.cursor.place⟩,
    found.cursor)

end LayeredConfig.Yaml
