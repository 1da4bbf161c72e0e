import LayeredConfig.Yaml.Block
import LayeredConfig.Yaml.Name
import LayeredConfig.Yaml.Plain
import LayeredConfig.Yaml.Quoted

/-!
# YAML: the tokens of a text

Cuts a text into tokens. A colon may show only later that a scalar, an alias or a whole collection
in brackets was a key; until then it is a possible key, and its token is not handed out, because the
mark of a key, and perhaps the start of a mapping, would stand before it. A possible key has to be
decided on its line and within 1024 characters.
-/

namespace LayeredConfig.Yaml

/-- A token that a colon would make a key. `number` counts the tokens before it. -/
structure PossibleKey where
  number : Nat
  required : Bool
  index : Nat
  line : Nat
  column : Nat
  place : Location
  deriving Repr

/-- The state of cutting. `flow` counts the open brackets, and is negative when more were closed
than opened; keys are possible on each level of brackets. -/
structure Lexer where
  cursor : Cursor
  flow : Int := 0
  queue : List Token := []
  taken : Nat := 0
  indent : Int := -1
  indents : List Int := []
  keyAllowed : Bool := true
  possible : List (Int × PossibleKey) := []
  done : Bool := false

namespace Lexer

def inFlow (l : Lexer) : Bool := l.flow ≠ 0

def stop {α : Type} (l : Lexer) (p : Problem) : Except Stop α := l.cursor.stop p

def push (l : Lexer) (t : Token) : Lexer := { l with queue := l.queue ++ [t] }

def pushMark (l : Lexer) (symbol : Symbol) (n : Nat) : Lexer :=
  let after := l.cursor.advance n
  { l.push ⟨symbol, l.cursor.place, after.place⟩ with cursor := after }

-- ---------------------------------------------------------------------------
-- Possible keys
-- ---------------------------------------------------------------------------

/-- A key can be decided only on its line and not too far from its start. -/
def isStale (l : Lexer) (k : PossibleKey) : Bool :=
  k.line ≠ l.cursor.line || 1024 < l.cursor.index - k.index

/-- The lexer without the keys that can no longer be decided. -/
def dropStale (l : Lexer) : Except Stop Lexer :=
  if l.possible.any fun e => l.isStale e.2 && e.2.required then l.stop .missingColon
  else .ok { l with possible := l.possible.filter fun e => !l.isStale e.2 }

def dropKey (l : Lexer) : Except Stop Lexer :=
  match l.possible.lookup l.flow with
  | none => .ok l
  | some k =>
    if k.required then l.stop .missingColon
    else .ok { l with possible := l.possible.filter (·.1 ≠ l.flow) }

/-- The lexer with the next token as a possible key, if one is allowed here. -/
def saveKey (l : Lexer) : Except Stop Lexer := do
  if !l.keyAllowed then return l
  else
    let l ← l.dropKey
    let c := l.cursor
    let key : PossibleKey := ⟨l.taken + l.queue.length, !l.inFlow && l.indent = c.column, c.index,
      c.line, c.column, c.place⟩
    return { l with possible := (l.flow, key) :: l.possible }

-- ---------------------------------------------------------------------------
-- Indentation
-- ---------------------------------------------------------------------------

/-- Ends the blocks in `indents` that are indented by more than `column`. -/
def unwindTo (column : Int) : List Int → Lexer → Lexer
  | [], l => l
  | outer :: rest, l =>
    if l.indent ≤ column then l
    else unwindTo column rest
      { l.push (Token.at .blockEnd l.cursor.place) with indent := outer, indents := rest }

/-- Ends the blocks that are indented by more than `column`. Brackets ignore indentation. -/
def unwind (l : Lexer) (column : Int) : Lexer :=
  if l.inFlow then l else unwindTo column l.indents l

/-- Starts a block at `column` with `token`, put at place `n` of the queue, if none is open
there. -/
def openBlock (l : Lexer) (column : Nat) (n : Nat) (token : Token) : Lexer :=
  if l.inFlow || column ≤ l.indent then l
  else { l with
    indents := l.indent :: l.indents
    indent := column
    queue := l.queue.take n ++ token :: l.queue.drop n }

def openBlockHere (l : Lexer) (symbol : Symbol) : Lexer :=
  l.openBlock l.cursor.column l.queue.length (Token.at symbol l.cursor.place)

-- ---------------------------------------------------------------------------
-- One token
-- ---------------------------------------------------------------------------

/-- Spaces, comments and line breaks up to the next token. Outside brackets a new line may start
with a key. `fuel` bounds the number of lines. -/
def skipLines : (fuel : Nat) → Lexer → Lexer
  | 0, l => l
  | fuel + 1, l =>
    let c := l.cursor.skipSpaces.skipComment
    if isBreak c.peek then
      skipLines fuel { l with cursor := c.skipBreak, keyAllowed := l.keyAllowed || !l.inFlow }
    else { l with cursor := c }

def skipToToken (l : Lexer) : Lexer :=
  let c := l.cursor
  let c := if c.index = 0 && c.peek = '\ufeff' then c.next else c
  skipLines (c.rest.length + 1) { l with cursor := c }

def addEnd (l : Lexer) : Except Stop Lexer := do
  let l ← (l.unwind (-1)).dropKey
  return { l.push (Token.at .streamEnd l.cursor.place) with
    keyAllowed := false, possible := [], done := true }

def addDirective (l : Lexer) : Except Stop Lexer := do
  let l ← (l.unwind (-1)).dropKey
  let (token, cursor) ← takeDirective l.cursor
  return { l.push token with cursor, keyAllowed := false }

def addSeparator (l : Lexer) (symbol : Symbol) : Except Stop Lexer := do
  let l ← (l.unwind (-1)).dropKey
  return { l.pushMark symbol 3 with keyAllowed := false }

def addFlowStart (l : Lexer) (symbol : Symbol) : Except Stop Lexer := do
  let l ← l.saveKey
  return { l.pushMark symbol 1 with flow := l.flow + 1, keyAllowed := true }

def addFlowEnd (l : Lexer) (symbol : Symbol) : Except Stop Lexer := do
  let l ← l.dropKey
  return { l.pushMark symbol 1 with flow := l.flow - 1, keyAllowed := false }

def addFlowEntry (l : Lexer) : Except Stop Lexer := do
  let l ← l.dropKey
  return { l.pushMark .flowEntry 1 with keyAllowed := true }

def addBlockEntry (l : Lexer) : Except Stop Lexer := do
  if !l.inFlow && !l.keyAllowed then l.stop .entryNotAllowed
  let l ← (l.openBlockHere .blockSequenceStart).dropKey
  return { l.pushMark .blockEntry 1 with keyAllowed := true }

def addKey (l : Lexer) : Except Stop Lexer := do
  if !l.inFlow && !l.keyAllowed then l.stop .keyNotAllowed
  let l ← (l.openBlockHere .blockMappingStart).dropKey
  return { l.pushMark .key 1 with keyAllowed := !l.inFlow }

/-- A colon makes the possible key a key, or starts a value without one. -/
def addValue (l : Lexer) : Except Stop Lexer := do
  match l.possible.lookup l.flow with
  | some k =>
    let n := k.number - l.taken
    let l := { l with
      possible := l.possible.filter (·.1 ≠ l.flow)
      queue := l.queue.take n ++ Token.at .key k.place :: l.queue.drop n }
    let l := l.openBlock k.column n (Token.at .blockMappingStart k.place)
    return { l.pushMark .value 1 with keyAllowed := false }
  | none =>
    if !l.inFlow && !l.keyAllowed then l.stop .valueNotAllowed
    let l ← (l.openBlockHere .blockMappingStart).dropKey
    return { l.pushMark .value 1 with keyAllowed := !l.inFlow }

def addPossibleKey (l : Lexer) (take : Cursor → Except Stop (Token × Cursor)) :
    Except Stop Lexer := do
  let l ← l.saveKey
  let (token, cursor) ← take l.cursor
  return { l.push token with cursor, keyAllowed := false }

def addBlockScalar (l : Lexer) : Except Stop Lexer := do
  let l ← l.dropKey
  let (token, cursor) ← takeBlock l.indent l.cursor
  return { l.push token with cursor, keyAllowed := true }

/-- A line break behind a plain scalar allows a key again. -/
def addPlain (l : Lexer) : Except Stop Lexer := do
  let l ← l.saveKey
  let (token, cursor, broken) := takePlain l.inFlow (l.indent + 1) l.cursor
  return { l.push token with cursor, keyAllowed := broken }

/-- Whether a plain scalar may start here. -/
def startsPlain (l : Lexer) : Bool :=
  let ch := l.cursor.peek
  let isMark := isFlowMark ch ||
    ['-', '?', ':', '#', '&', '*', '!', '|', '>', '\'', '"', '%', '@', '`'].contains ch
  !(isBlankOrEnd ch || isMark) ||
    (!isBlankOrEnd (l.cursor.peekAt 1) && (ch = '-' || (!l.inFlow && (ch = '?' || ch = ':'))))

def fetch (l : Lexer) : Except Stop Lexer := do
  let l ← l.skipToToken.dropStale
  let l := l.unwind l.cursor.column
  let c := l.cursor
  let ch := c.peek
  let atStart := c.column = 0
  let isAlone := isBlankOrEnd (c.peekAt 1)
  if c.atEnd then l.addEnd
  else if ch = '%' && atStart then l.addDirective
  else if atStart && c.atTriple '-' then l.addSeparator .documentStart
  else if atStart && c.atTriple '.' then l.addSeparator .documentEnd
  else if ch = '[' then l.addFlowStart .flowSequenceStart
  else if ch = '{' then l.addFlowStart .flowMappingStart
  else if ch = ']' then l.addFlowEnd .flowSequenceEnd
  else if ch = '}' then l.addFlowEnd .flowMappingEnd
  else if ch = ',' then l.addFlowEntry
  else if ch = '-' && isAlone then l.addBlockEntry
  else if ch = '?' && (l.inFlow || isAlone) then l.addKey
  else if ch = ':' && (l.inFlow || isAlone) then l.addValue
  else if ch = '*' then l.addPossibleKey (takeAnchor .alias)
  else if ch = '&' then l.addPossibleKey (takeAnchor .anchor)
  else if ch = '!' then l.addPossibleKey takeTag
  else if (ch = '|' || ch = '>') && !l.inFlow then l.addBlockScalar
  else if ch = '\'' || ch = '"' then l.addPossibleKey takeQuoted
  else if l.startsPlain then l.addPlain
  else l.stop (.noToken ch)

-- ---------------------------------------------------------------------------
-- All tokens
-- ---------------------------------------------------------------------------

def headIsOpen (l : Lexer) : Bool :=
  l.possible.any fun e => e.2.number = l.taken

/-- One step: hands out the first token of the queue when no colon can change it any more, or cuts
the next token. -/
def step (l : Lexer) : Except Stop (Option Token × Lexer) :=
  match l.queue with
  | [] => l.fetch.map (none, ·)
  | token :: queue =>
    if l.done then .ok (some token, { l with queue, taken := l.taken + 1 })
    else do
      let l ← l.dropStale
      if l.headIsOpen then return (none, ← l.fetch)
      else return (some token, { l with queue, taken := l.taken + 1 })

/-- The tokens up to the end, or up to the problem that ends them. `fuel` bounds the number of
steps. -/
def run : (fuel : Nat) → Lexer → List Token × Option Stop
  | 0, _ => ([], none)
  | fuel + 1, l =>
    if l.done && l.queue.isEmpty then ([], none)
    else match l.step with
      | .error e => ([], some e)
      | .ok (token?, l) =>
        let (tokens, problem) := run fuel l
        (token?.toList ++ tokens, problem)

end Lexer

/-- The tokens that can be told before a problem, and the problem. -/
def tokens (cs : List Char) : List Token × Option Stop :=
  let c : Cursor := { rest := cs }
  (Lexer.mk c 0 [Token.at .streamStart c.place] 0 (-1) [] true [] false).run (8 * cs.length + 16)

end LayeredConfig.Yaml
