import LayeredConfig.Toml.Moment
import LayeredConfig.Toml.Number
import LayeredConfig.Toml.Table
import LayeredConfig.Toml.Text

/-!
# TOML: reading

Reads a document statement by statement: a key with its value, or the header of a section. Keys
have one or more parts with dots between them.
-/

namespace LayeredConfig.Toml

def isBare (c : Char) : Bool :=
  Text.isDigit c || ('a' ≤ c && c ≤ 'z') || ('A' ≤ c && c ≤ 'Z') || c = '-' || c = '_'

def startsKey (c : Char) : Bool := isBare c || c = '"' || c = '\''

def takeKeyPart (cs : List Char) : Except Stop (String × List Char) :=
  match takeLine? cs with
  | some found => found.map fun (part, rest) => (String.ofList part, rest)
  | none =>
    let part := cs.takeWhile isBare
    if part.isEmpty then problemAt .invalidKeyStart cs
    else .ok (String.ofList part, cs.dropWhile isBare)

/-- The parts of a key and what follows the spaces behind it. `fuel` bounds the number of parts. -/
def takeKeyParts : (fuel : Nat) → List Char → Except Stop (List String × List Char)
  | 0, cs => problemAt .invalidKeyStart cs
  | fuel + 1, cs => do
    let (part, rest) ← takeKeyPart cs
    match skipSpace rest with
    | '.' :: rest => do
      let (parts, rest) ← takeKeyParts fuel (skipSpace rest)
      return (part :: parts, rest)
    | rest => return ([part], rest)

def takeKey (cs : List Char) : Except Stop (List String × List Char) :=
  takeKeyParts (cs.length + 1) cs

def takeEquals : List Char → Except Stop (List Char)
  | '=' :: rest => .ok (skipSpace rest)
  | cs => problemAt .expectedEquals cs

/-- The values that take one scan: strings, truth values, dates and numbers. -/
def takeSimple (cs : List Char) : Except Stop (Document × List Char) :=
  match takeString? cs with
  | some found => found.map fun (s, rest) => (Document.str (String.ofList s), rest)
  | none =>
    match cs with
    | 't' :: 'r' :: 'u' :: 'e' :: rest => .ok (.leaf (.bool true), rest)
    | 'f' :: 'a' :: 'l' :: 's' :: 'e' :: rest => .ok (.leaf (.bool false), rest)
    | cs =>
      match takeMoment? cs with
      | some found => found.map fun (m, rest) => (.scalar (.moment m), rest)
      | none =>
        match takeNumber? cs, takeNamedNumber? cs with
        | some found, _ => found.map fun (v, rest) => (.leaf v, rest)
        | none, some (v, rest) => .ok (.leaf v, rest)
        | none, none => problemAt .invalidValue cs

/-- An inline table with one more field, and the keys that are frozen in it. -/
def addInline (table : Table) (frozen : List (List String)) (key : List String)
    (value : Document) : Except Problem Table :=
  if frozen.any (·.isPrefixOf key) then .error (.immutable key)
  else
    let name := key.getLastD ""
    match table.alter some false key.dropLast with
    | none => .error .overwritten
    | some _ =>
      match table.alter (Table.add name value) false key.dropLast with
      | none => .error (.repeatedInlineKey name)
      | some table => .ok table

/-- A problem of what was read, at the place that reading has reached. -/
def orProblem {α : Type} (x : Except Problem α) (cs : List Char) : Except Stop α :=
  x.mapError fun p => .problem p cs.length

mutual

/-- The value at the front of a text, and what follows it. `fuel` bounds the values that are read,
of which a text has at most one for each character. -/
def takeValue : (fuel : Nat) → List Char → Except Stop (Document × List Char)
  | 0, cs => problemAt .invalidValue cs
  | fuel + 1, '[' :: rest => do
    match ← skipItemSpace rest with
    | ']' :: rest => return (.list [], rest)
    | rest => do
      let (items, rest) ← takeItems fuel rest
      return (.list items, rest)
  | fuel + 1, '{' :: rest =>
    match skipSpace rest with
    | '}' :: rest => .ok (.map [], rest)
    | rest => do
      let (table, rest) ← takeFields fuel [] [] rest
      return (.map table, rest)
  | _ + 1, cs => takeSimple cs

def takeItems : (fuel : Nat) → List Char → Except Stop (List Document × List Char)
  | 0, cs => problemAt .invalidValue cs
  | fuel + 1, cs => do
    let (value, rest) ← takeValue fuel cs
    match ← skipItemSpace rest with
    | ']' :: rest => return ([value], rest)
    | ',' :: rest =>
      match ← skipItemSpace rest with
      | ']' :: rest => return ([value], rest)
      | rest => do
        let (items, rest) ← takeItems fuel rest
        return (value :: items, rest)
    | rest => problemAt .unclosedArray rest

/-- The fields of an inline table from a key on, after those in `table`, and what follows the
closing brace. -/
def takeFields : (fuel : Nat) → Table → (frozen : List (List String)) → List Char →
    Except Stop (Table × List Char)
  | 0, _, _, cs => problemAt .invalidKeyStart cs
  | fuel + 1, table, frozen, cs => do
    let (key, rest) ← takeKey cs
    let (value, rest) ← takeValue fuel (← takeEquals rest)
    let table ← orProblem (addInline table frozen key value) rest
    match skipSpace rest with
    | '}' :: rest => return (table, rest)
    | ',' :: rest =>
      takeFields fuel table (if Draft.isContainer value then key :: frozen else frozen)
        (skipSpace rest)
    | rest => problemAt .unclosedInlineTable rest

end

def takeAssignment (d : Draft) (cs : List Char) : Except Stop (Draft × List Char) := do
  let (key, rest) ← takeKey cs
  let value ← takeEquals rest
  let (value, rest) ← takeValue (2 * value.length + 1) value
  return (← orProblem (d.assign key value) rest, rest)

def takeHeader (d : Draft) (cs : List Char) : Except Stop (Draft × List Char) := do
  let d := d.endSection
  match cs with
  | '[' :: '[' :: rest =>
    let (key, rest) ← takeKey (skipSpace rest)
    let d ← orProblem (d.declareItem key) rest
    match rest with
    | ']' :: ']' :: rest => return (d, rest)
    | rest => problemAt .expectedArrayTableEnd rest
  | _ =>
    let (key, rest) ← takeKey (skipSpace (cs.drop 1))
    let d ← orProblem (d.declareTable key) rest
    match rest with
    | ']' :: rest => return (d, rest)
    | rest => problemAt .expectedTableEnd rest

def takeStatement (d : Draft) (cs : List Char) : Except Stop (Draft × List Char) :=
  match cs with
  | [] => .ok (d, [])
  | c :: _ =>
    if startsKey c then takeAssignment d cs
    else if c = '[' then takeHeader d cs
    else if c = '#' || c = '\n' then .ok (d, cs)
    else problemAt .invalidStatement cs

/-- The statements of a text, each on its line. `fuel` bounds the number of lines. -/
def takeStatements : (fuel : Nat) → Draft → List Char → Except Stop Draft
  | 0, d, _ => .ok d
  | fuel + 1, d, cs => do
    let (d, rest) ← takeStatement d (skipSpace cs)
    match ← skipComment (skipSpace rest) with
    | [] => return d
    | '\n' :: rest => takeStatements fuel d rest
    | rest => problemAt .expectedEndOfStatement rest

/-- Line ends in their short form. -/
def joinLineEnds : List Char → List Char
  | '\r' :: '\n' :: rest => '\n' :: joinLineEnds rest
  | c :: rest => c :: joinLineEnds rest
  | [] => []

def read (text : String) : Except Refusal Document :=
  let cs := joinLineEnds text.toList
  match takeStatements (cs.length + 1) {} cs with
  | .ok d => .ok (.map d.table)
  | .error e => .error (e.refusal cs)

end LayeredConfig.Toml
