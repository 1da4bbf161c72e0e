import LayeredConfig.Number.Decimal
import LayeredConfig.Text.Base64
import LayeredConfig.Text.Encoding
import LayeredConfig.Text.Lowercase
import LayeredConfig.Text.Scan
import LayeredConfig.Yaml.Resolve

/-!
# YAML: the values of scalars

Reads the text of a scalar as its tag demands. A tag that was written out may stand on a text that
is none of its values.
-/

namespace LayeredConfig.Yaml

def takeSign (t : Text) : Bool × Text :=
  match t.points with
  | '-' :: rest => (true, ⟨rest⟩)
  | '+' :: rest => (false, ⟨rest⟩)
  | ps => (false, ⟨ps⟩)

def dropUnderscores (t : Text) : Text := ⟨t.points.filter (· ≠ .char '_')⟩

def readInBase (base : Nat) (text : Text) : Except Fault Int :=
  match Integer.read base text.legible with
  | .ok n => .ok n
  | .error (.tooLong n) => .error (.digitsTooMany n)
  | .error .malformed => .error (.malformedInteger base text)

/-- A whole number: binary behind `0b`, hexadecimal behind `0x`, octal behind any other zero, to
base sixty where there are colons. -/
def readInt (text : Text) : Except Fault Int :=
  let (negative, digits) := takeSign (dropUnderscores text)
  let magnitude : Except Fault Int := match digits.points with
    | [] => .error .noDigits
    | ['0'] => .ok 0
    | '0' :: 'b' :: rest => readInBase 2 ⟨rest⟩
    | '0' :: 'x' :: rest => readInBase 16 ⟨rest⟩
    | '0' :: _ => readInBase 8 digits
    | ps =>
      if ps.contains ':' then do
        let groups ← (Text.splitOn (.char ':') ps).mapM (readInBase 10 ⟨·⟩)
        return groups.foldl (fun n d => n * 60 + d) 0
      else readInBase 10 digits
  magnitude.map fun n => if negative then -n else n

def readDecimal (mark : Nat) (text : Text) : Except Fault Binary64 :=
  match Binary64.read text.legible with
  | some (.nan _) => .ok (.nan mark)
  | some x => .ok x
  | none => .error (.malformedFloat text)

/-- The sum of groups, the last first, each in units of sixty times the one before it. -/
def sumSixties (sum : Binary64) (unit : Nat) : List Binary64 → Except Fault Binary64
  | [] => .ok sum
  | x :: rest =>
    match Binary64.ofInt unit with
    | .infinite _ => .error .beyondFloat
    | u => sumSixties (sum.add (x.mul u)) (unit * 60) rest

/-- A floating-point number. What is not a number is the same wherever its special name stands, but
made anew by any other text, with `mark` to tell it apart. -/
def readFloat (mark : Nat) (text : Text) : Except Fault Binary64 :=
  let unmarked := Text.lowerText (dropUnderscores text)
  let (negative, digits) := takeSign unmarked
  let signed (x : Binary64) : Binary64 :=
    match x with
    | .nan _ => .nan mark
    | x => if negative then x.neg else x
  if unmarked.isEmpty then .error .noDigits
  else if digits = ".inf" then .ok (.infinite negative)
  else if digits = ".nan" then .ok (.nan 0)
  else if digits.points.contains (.char ':') then do
    let groups ← (Text.splitOn (.char ':') digits.points).mapM (readDecimal mark ⟨·⟩)
    return signed (← sumSixties (Binary64.zero false) 1 groups.reverse)
  else (readDecimal mark digits).map signed

def readBool (text : Text) : Except Fault Bool :=
  match Text.lower (String.ofList text.legible) with
  | "yes" | "true" | "on" => .ok true
  | "no" | "false" | "off" => .ok false
  | _ => .error .unknownTruth

/-- The moment of a timestamp, if the calendar and the clock have it. -/
def Timestamp.moment (t : Timestamp) : Except Fault Moment := do
  match t.clock with
  | none => return .date (← Date.check t.year t.month t.day)
  | some (hour, minute, second, micro) =>
    if let some offset := t.offset then
      if 1440 ≤ offset.natAbs then throw (.offsetOutOfRange (offset * 60000000))
    let day ← Date.check t.year t.month t.day
    let clock ← Clock.check hour minute second micro
    return .dateTime day clock (t.offset.map (· * 60000000))

def readMoment (text : List Char) : Except Fault Moment :=
  match readTimestamp (dropLineEnd text) with
  | some t => t.moment
  | none => .error .notATimestamp

def readBinary (place : Location) (text : Text) : Except Stop Scalar :=
  match Encoding.asciiProblem? text with
  | some reason => .error (.problem (.notAscii reason) place)
  | none =>
    match Base64.decode text.legible with
    | .ok bytes => .ok (.display "bytes" (Text.quoteBytes bytes))
    | .error p => .error (.problem (.notBase64 p.message) place)

/-- The value of a scalar with a core tag for scalars; `none` for any other tag. -/
def readScalar? (tag : String) (text : Text) (place : Location) (mark : Nat) :
    Option (Except Stop Scalar) :=
  let value {α : Type} (x : Except Fault α) (f : α → Scalar) : Option (Except Stop Scalar) :=
    some ((x.map f).mapError Stop.fault)
  if tag = Tag.str then some (.ok (.str text))
  else if tag = Tag.null then some (.ok (.leaf .null))
  else if tag = Tag.bool then value (readBool text) (.leaf <| .bool ·)
  else if tag = Tag.int then value (readInt text) (.leaf <| .int ·)
  else if tag = Tag.float then value (readFloat mark text) (.leaf <| .float ·)
  else if tag = Tag.timestamp then value (readMoment text.legible) .moment
  else if tag = Tag.binary then some (readBinary place text)
  else none

end LayeredConfig.Yaml
