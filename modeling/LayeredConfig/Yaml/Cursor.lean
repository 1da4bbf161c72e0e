import LayeredConfig.Yaml.Basic

/-!
# YAML: places in a text

A cursor is what is left of a text together with the place that reading has reached. A carriage
return with a line feed behind it is one line break; a byte order mark takes no column.
-/

namespace LayeredConfig.Yaml

structure Cursor where
  rest : List Char
  index : Nat := 0
  line : Nat := 0
  column : Nat := 0
  deriving Repr

namespace Cursor

def place (c : Cursor) : Location := ⟨c.line + 1, c.column + 1⟩

def peek (c : Cursor) : Char := c.rest.headD endMark

def peekAt (c : Cursor) (n : Nat) : Char := c.rest.getD n endMark

def atEnd (c : Cursor) : Bool := c.rest.isEmpty

def next (c : Cursor) : Cursor :=
  match c.rest with
  | [] => c
  | ch :: rest =>
    if isBreak ch && !(ch = '\r' && rest.head? = some '\n') then
      ⟨rest, c.index + 1, c.line + 1, 0⟩
    else if ch = '\ufeff' then ⟨rest, c.index + 1, c.line, c.column⟩
    else ⟨rest, c.index + 1, c.line, c.column + 1⟩

def advance (c : Cursor) : Nat → Cursor
  | 0 => c
  | n + 1 => c.next.advance n

def take (p : Char → Bool) (c : Cursor) : List Char × Cursor :=
  let run := c.rest.takeWhile p
  (run, c.advance run.length)

def skip (p : Char → Bool) (c : Cursor) : Cursor := (c.take p).2

def skipSpaces (c : Cursor) : Cursor := c.skip (· = ' ')

/-- A line break, as text, if one comes next. The separators of lines and paragraphs stay what they
are; every other break is a line feed. -/
def takeBreak (c : Cursor) : List Char × Cursor :=
  let ch := c.peek
  if ch = '\r' && c.peekAt 1 = '\n' then (['\n'], c.advance 2)
  else if ch = '\u2028' || ch = '\u2029' then ([ch], c.next)
  else if isBreak ch then (['\n'], c.next)
  else ([], c)

def skipBreak (c : Cursor) : Cursor := c.takeBreak.2

/-- A comment up to the end of its line, if one comes next. -/
def skipComment (c : Cursor) : Cursor :=
  if c.peek = '#' then c.skip (!isBreakOrEnd ·) else c

/-- Three of a character with nothing behind them on the line. -/
def atTriple (mark : Char) (c : Cursor) : Bool :=
  c.rest.take 3 = [mark, mark, mark] && isBlankOrEnd (c.peekAt 3)

/-- A mark that separates documents, wherever on the line. -/
def atSeparator (c : Cursor) : Bool := c.atTriple '-' || c.atTriple '.'

def stop {α : Type} (c : Cursor) (p : Problem) : Except Stop α :=
  .error (.problem p c.place)

/-- Spaces, a comment and the line break that has to follow. -/
def skipRestOfLine (c : Cursor) : Except Stop Cursor :=
  let c := c.skipSpaces.skipComment
  if isBreakOrEnd c.peek then .ok c.skipBreak else c.stop (.expectedComment c.peek)

end Cursor

end LayeredConfig.Yaml
