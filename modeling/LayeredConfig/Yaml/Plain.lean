import LayeredConfig.Yaml.Token

/-!
# YAML: scalars without quotes

A plain scalar ends at a comment, at a colon with a blank behind it, and inside brackets at the
marks of the enclosing collection. It goes on over line breaks as long as the lines are indented;
one break becomes a space, more of them lose the first.
-/

namespace LayeredConfig.Yaml

/-- The characters of a plain scalar up to a blank or its end. -/
def plainRun (inFlow : Bool) : List Char → List Char
  | [] => []
  | ch :: rest =>
    let next := rest.headD endMark
    if isBlankOrEnd ch || (ch = ':' && (isBlankOrEnd next || (inFlow && isFlowMark next))) ||
        (inFlow && (isFlowMark ch || ch = '?')) then []
    else ch :: plainRun inFlow rest

/-- Line breaks and spaces up to the next text. Stops with `none` where a mark separates documents.
`fuel` bounds their number. -/
def takePlainBreaks : (fuel : Nat) → Cursor → Option (List Char) × Cursor
  | 0, c => (some [], c)
  | fuel + 1, c =>
    if c.peek = ' ' then takePlainBreaks fuel c.next
    else if isBreak c.peek then
      let (here, c) := c.takeBreak
      if c.atSeparator then (none, c)
      else
        let (more, c) := takePlainBreaks fuel c
        (more.map (here ++ ·), c)
    else (some [], c)

/-- The blanks behind some text of a plain scalar, as they count when more text follows. -/
structure PlainGap where
  text : List Char
  /-- A line break was among them. -/
  broken : Bool
  cursor : Cursor

def takePlainGap (c : Cursor) : PlainGap :=
  let (spaces, c) := c.take (· = ' ')
  if isBreak c.peek then
    let (lineBreak, c) := c.takeBreak
    if c.atSeparator then ⟨[], true, c⟩
    else
      let (breaks?, c) := takePlainBreaks (c.rest.length + 1) c
      match breaks? with
      | none => ⟨[], true, c⟩
      | some breaks =>
        let first := if lineBreak ≠ ['\n'] then lineBreak else if breaks.isEmpty then [' '] else []
        ⟨first ++ breaks, true, c⟩
  else ⟨spaces, false, c⟩

structure PlainDraft where
  text : List Char
  stop : Location
  broken : Bool
  cursor : Cursor

/-- The text of a plain scalar on lines with an indentation of at least `indent`, after `gap`.
`fuel` bounds the number of runs of text. -/
def takePlainRuns (inFlow : Bool) (indent : Int) : (fuel : Nat) → (gap : List Char) →
    PlainDraft → PlainDraft
  | 0, _, d => d
  | fuel + 1, gap, d =>
    let run := if d.cursor.peek = '#' then [] else plainRun inFlow d.cursor.rest
    if run.isEmpty then d
    else
      let c := d.cursor.advance run.length
      let next := takePlainGap c
      let d := ⟨d.text ++ gap ++ run, c.place, next.broken, next.cursor⟩
      if next.text.isEmpty || next.cursor.peek = '#' ||
          (!inFlow && (next.cursor.column : Int) < indent) then d
      else takePlainRuns inFlow indent fuel next.text d

/-- A plain scalar, what follows it, and whether a line break stands between. -/
def takePlain (inFlow : Bool) (indent : Int) (c : Cursor) : Token × Cursor × Bool :=
  let d := takePlainRuns inFlow indent (c.rest.length + 1) [] ⟨[], c.place, false, c⟩
  (⟨.scalar (String.ofList d.text) true, c.place, d.stop⟩, d.cursor, d.broken)

end LayeredConfig.Yaml
