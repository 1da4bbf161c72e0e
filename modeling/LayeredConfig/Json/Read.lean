import LayeredConfig.Document.Basic
import LayeredConfig.Json.Text
import LayeredConfig.Number.Decimal

/-!
# JSON: reading

Reads one value with nothing but space around it. Beyond the standard, `NaN` and `Infinity` are
numbers. A number with a fraction or an exponent is a floating-point one. An object whose members
repeat a name is refused as soon as it closes.
-/

namespace LayeredConfig.Json

/-- The digits of a fraction with the point before them, if one follows. -/
def takeFraction : List Char → List Char × List Char
  | '.' :: c :: rest =>
    if Text.isDigit c then
      ('.' :: c :: rest.takeWhile Text.isDigit, rest.dropWhile Text.isDigit)
    else ([], '.' :: c :: rest)
  | cs => ([], cs)

/-- The characters of an exponent, if a complete one follows. -/
def takeExponent (cs : List Char) : List Char × List Char :=
  match cs with
  | mark :: rest =>
    let (sign, after) := match rest with
      | '+' :: after => (['+'], after)
      | '-' :: after => (['-'], after)
      | after => ([], after)
    let digits := after.takeWhile Text.isDigit
    if (mark = 'e' || mark = 'E') && !digits.isEmpty then
      (mark :: sign ++ digits, after.dropWhile Text.isDigit)
    else ([], cs)
  | [] => ([], [])

/-- The digits before the point, of which a zero is the only one. -/
def takeWhole : List Char → List Char × List Char
  | '0' :: rest => (['0'], rest)
  | cs => (cs.takeWhile Text.isDigit, cs.dropWhile Text.isDigit)

def takeNumber (cs : List Char) : Except Stop (Leaf × List Char) :=
  let (sign, magnitude) := match cs with
    | '-' :: rest => (['-'], rest)
    | _ => ([], cs)
  let (whole, rest) := takeWhole magnitude
  let (fraction, rest) := takeFraction rest
  let (exponent, rest) := takeExponent rest
  if whole.isEmpty then .error (.problem .expectingValue cs.length)
  else if fraction.isEmpty && exponent.isEmpty then
    match Integer.read 10 (sign ++ whole) with
    | .ok n => .ok (.int n, rest)
    | .error (.tooLong n) => .error (.digitsTooMany n)
    | .error .malformed => .error (.problem .expectingValue cs.length)
  else
    match Binary64.read (sign ++ whole ++ fraction ++ exponent) with
    | some x => .ok (.float x, rest)
    | none => .error (.problem .expectingValue cs.length)

def words : List (List Char × Leaf) := [
  (['n', 'u', 'l', 'l'], .null),
  (['t', 'r', 'u', 'e'], .bool true),
  (['f', 'a', 'l', 's', 'e'], .bool false),
  (['N', 'a', 'N'], .float (.nan 0)),
  (['I', 'n', 'f', 'i', 'n', 'i', 't', 'y'], .float (.infinite false)),
  (['-', 'I', 'n', 'f', 'i', 'n', 'i', 't', 'y'], .float (.infinite true))]

def takeWord? (cs : List Char) : Option (Leaf × List Char) :=
  (words.find? fun w => w.1.isPrefixOf cs).map fun w => (w.2, cs.drop w.1.length)

/-- The first name that members before it have too. -/
def repeated? (before : List Text) : List (Text × Document) → Option Text
  | [] => none
  | (name, _) :: rest => if before.contains name then some name else repeated? (name :: before) rest

def close (members : List (Text × Document)) : Except Stop Document :=
  match repeated? [] members with
  | some name => .error (.duplicateKey name)
  | none => .ok (Document.object members)

mutual

/-- The value at the front of a text, and what follows it. `fuel` bounds the values and members
that are read, of which a text has at most one for each character. -/
def takeValue : (fuel : Nat) → List Char → Except Stop (Document × List Char)
  | 0, cs => .error (.problem .expectingValue cs.length)
  | _, [] => .error (.problem .expectingValue 0)
  | _ + 1, '"' :: rest => do
    let (s, rest) ← takeString rest
    return (Document.str s, rest)
  | fuel + 1, '{' :: rest =>
    match skipSpace rest with
    | '}' :: rest => .ok (Document.object [], rest)
    | rest => do
      let (members, rest) ← takeMembers fuel rest
      return (← close members, rest)
  | fuel + 1, '[' :: rest =>
    match skipSpace rest with
    | ']' :: rest => .ok (.list [], rest)
    | rest => do
      let (items, rest) ← takeItems fuel rest
      return (.list items, rest)
  | _ + 1, cs =>
    match takeWord? cs with
    | some (v, rest) => .ok (.leaf v, rest)
    | none => do
      let (v, rest) ← takeNumber cs
      return (.leaf v, rest)

def takeMembers : (fuel : Nat) → List Char → Except Stop (List (Text × Document) × List Char)
  | 0, cs => .error (.problem .expectingName cs.length)
  | fuel + 1, '"' :: rest => do
    let (name, rest) ← takeString rest
    match skipSpace rest with
    | ':' :: rest => do
      let (value, rest) ← takeValue fuel (skipSpace rest)
      match skipSpace rest with
      | '}' :: rest => return ([(name, value)], rest)
      | ',' :: rest => do
        let (members, rest) ← takeMembers fuel (skipSpace rest)
        return ((name, value) :: members, rest)
      | rest => throw (.problem .expectingComma rest.length)
    | rest => throw (.problem .expectingColon rest.length)
  | _ + 1, cs => .error (.problem .expectingName cs.length)

def takeItems : (fuel : Nat) → List Char → Except Stop (List Document × List Char)
  | 0, cs => .error (.problem .expectingValue cs.length)
  | fuel + 1, cs => do
    let (value, rest) ← takeValue fuel cs
    match skipSpace rest with
    | ']' :: rest => return ([value], rest)
    | ',' :: rest => do
      let (items, rest) ← takeItems fuel (skipSpace rest)
      return (value :: items, rest)
    | rest => throw (.problem .expectingComma rest.length)

end

def readChars (cs : List Char) : Except Stop Document :=
  if cs.head? = some '\ufeff' then .error (.problem .byteOrderMark cs.length)
  else do
    let (value, rest) ← takeValue (2 * cs.length + 1) (skipSpace cs)
    match skipSpace rest with
    | [] => return value
    | rest => throw (.problem .extraData rest.length)

def read (text : String) : Except Refusal Document :=
  let cs := text.toList
  (readChars cs).mapError (·.refusal cs)

end LayeredConfig.Json
