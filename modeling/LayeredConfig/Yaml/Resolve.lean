import LayeredConfig.Time.Read
import LayeredConfig.Yaml.Basic

/-!
# YAML: the tags of plain scalars

A scalar without quotes and without a tag gets its tag from the look of its text: truth values,
numbers, dates, null and the two special keys each have their own look, and everything else is a
string. A single line feed at the end does not change the look.
-/

namespace LayeredConfig.Yaml

namespace Tag

def coreStart : String := "tag:yaml.org,2002:"

def core (name : String) : String := coreStart ++ name

def null : String := core "null"
def bool : String := core "bool"
def int : String := core "int"
def float : String := core "float"
def binary : String := core "binary"
def timestamp : String := core "timestamp"
def omap : String := core "omap"
def pairs : String := core "pairs"
def set : String := core "set"
def str : String := core "str"
def seq : String := core "seq"
def map : String := core "map"
def merge : String := core "merge"
def value : String := core "value"
def mark : String := core "yaml"

end Tag

/-- The text without one line feed at its end. -/
def dropLineEnd (cs : List Char) : List Char :=
  if cs.getLast? = some '\n' then cs.dropLast else cs

def looksLikeBool (cs : List Char) : Bool :=
  ["yes", "Yes", "YES", "no", "No", "NO", "true", "True", "TRUE", "false", "False", "FALSE",
    "on", "On", "ON", "off", "Off", "OFF"].contains (String.ofList cs)

def looksLikeNull (cs : List Char) : Bool :=
  ["~", "null", "Null", "NULL", ""].contains (String.ofList cs)

def dropSign (cs : List Char) : List Char :=
  match cs with
  | '+' :: rest => rest
  | '-' :: rest => rest
  | cs => cs

def isDigitOrUnderscore (c : Char) : Bool := Text.isDigit c || c = '_'

def some? (p : Char → Bool) (cs : List Char) : Bool := !cs.isEmpty && cs.all p

/-- The rest of a number to base sixty: groups below sixty behind colons, of which there has to be
one unless `hasGroup`, and then what `rest` accepts. -/
def sixties (rest : List Char → Bool) (hasGroup : Bool) : List Char → Bool
  | ':' :: a :: b :: cs =>
    if '0' ≤ a && a ≤ '5' && Text.isDigit b then sixties rest true cs
    else Text.isDigit a && sixties rest true (b :: cs)
  | [':', a] => Text.isDigit a && rest []
  | cs => hasGroup && rest cs

/-- Digits and underscores after a digit that `first` accepts, and then groups to base sixty. -/
def looksLikeSixties (first : Char → Bool) (rest : List Char → Bool) : List Char → Bool
  | [] => false
  | c :: cs => first c && sixties rest false (cs.dropWhile isDigitOrUnderscore)

def looksLikeInt (cs : List Char) : Bool :=
  let cs := dropSign cs
  let isPositive (c : Char) : Bool := Text.isDigit c && c ≠ '0'
  match cs with
  | ['0'] => true
  | '0' :: 'b' :: rest => some? (fun c => c = '0' || c = '1' || c = '_') rest
  | '0' :: 'x' :: rest => some? (fun c => (Text.hexValue? c).isSome || c = '_') rest
  | '0' :: rest => rest.all fun c => ('0' ≤ c && c ≤ '7') || c = '_'
  | c :: rest =>
    isPositive c && (rest.all isDigitOrUnderscore || looksLikeSixties isPositive List.isEmpty cs)
  | [] => false

/-- Nothing, or an exponent, whose sign is required. -/
def looksLikeExponent : List Char → Bool
  | [] => true
  | mark :: sign :: digits =>
    (mark = 'e' || mark = 'E') && (sign = '+' || sign = '-') && some? Text.isDigit digits
  | _ => false

def looksLikeFraction : List Char → Bool
  | '.' :: rest => looksLikeExponent (rest.dropWhile isDigitOrUnderscore)
  | _ => false

def isInfinity (cs : List Char) : Bool := [".inf", ".Inf", ".INF"].contains (String.ofList cs)

def looksLikeFloat (cs : List Char) : Bool :=
  let unsigned := dropSign cs
  let startsWithDigit := unsigned.head?.any Text.isDigit
  let isEnd : List Char → Bool
    | '.' :: rest => rest.all isDigitOrUnderscore
    | _ => false
  (startsWithDigit && looksLikeFraction (unsigned.dropWhile isDigitOrUnderscore)) ||
    (cs.head? = some '.' && (cs.drop 1).head?.any Text.isDigit && looksLikeFraction cs) ||
    looksLikeSixties Text.isDigit isEnd unsigned ||
    isInfinity unsigned ||
    [".nan", ".NaN", ".NAN"].contains (String.ofList cs)

-- ---------------------------------------------------------------------------
-- Dates and times
-- ---------------------------------------------------------------------------

/-- The numbers of a date and perhaps a time, as far as the text gives them. -/
structure Timestamp where
  year : Nat
  month : Nat
  day : Nat
  /-- Hour, minute, second and microsecond. -/
  clock : Option (Nat × Nat × Nat × Nat)
  /-- In minutes. -/
  offset : Option Int
  deriving Repr

def takeOneOrTwo (cs : List Char) : Option (Nat × List Char) :=
  let digits := (cs.take 2).takeWhile Text.isDigit
  if digits.isEmpty then none
  else some (Text.ofDigits 10 (digits.filterMap Text.hexValue?), cs.drop digits.length)

def isTab (c : Char) : Bool := c = ' ' || c = '\t'

/-- The offset behind a time, which has to be the end of the text. -/
def readOffset (cs : List Char) : Option (Option Int) :=
  match cs with
  | [] => some none
  | cs =>
    match cs.dropWhile isTab with
    | ['Z'] => some (some 0)
    | sign :: rest => do
      let (hours, rest) ← takeOneOrTwo rest
      let minutes ← match rest with
        | [] => some 0
        | ':' :: rest => do
          let (minutes, rest) ← Moment.takeDigits 2 rest
          if rest.isEmpty then some minutes else none
        | _ => none
      let size : Int := hours * 60 + minutes
      if sign = '+' then some (some size) else if sign = '-' then some (some (-size)) else none
    | [] => none

/-- The time behind a date, from what separates them to the end of the text. -/
def readClock (cs : List Char) : Option ((Nat × Nat × Nat × Nat) × Option Int) := do
  let cs ← match cs with
    | 'T' :: rest => some rest
    | 't' :: rest => some rest
    | c :: rest => if isTab c then some (rest.dropWhile isTab) else none
    | [] => none
  let (hour, cs) ← takeOneOrTwo cs
  let (minute, cs) ← Moment.takeDigits 2 (← Moment.takeMark ':' cs)
  let (second, cs) ← Moment.takeDigits 2 (← Moment.takeMark ':' cs)
  let (micro, cs) := Moment.takeFraction cs
  return ((hour, minute, second, micro), ← readOffset cs)

def readTimestamp (cs : List Char) : Option Timestamp := do
  let (year, cs) ← Moment.takeDigits 4 cs
  let (month, cs) ← takeOneOrTwo (← Moment.takeMark '-' cs)
  let (day, cs) ← takeOneOrTwo (← Moment.takeMark '-' cs)
  if cs.isEmpty then return ⟨year, month, day, none, none⟩
  else
    let (clock, offset) ← readClock cs
    return ⟨year, month, day, some clock, offset⟩

/-- A timestamp; without a time, month and day need two digits. -/
def looksLikeTimestamp (cs : List Char) : Bool :=
  (readTimestamp cs).any fun t => t.clock.isSome || cs.length = 10

/-- The tag that a plain scalar gets. A mark of the grammar alone is plain only where a tag leaves
the choice open. -/
def resolve (text : Text) : String :=
  let whole := text.legible
  let cs := dropLineEnd whole
  if whole = ['\n'] then Tag.str
  else if looksLikeBool cs then Tag.bool
  else if looksLikeFloat cs then Tag.float
  else if looksLikeInt cs then Tag.int
  else if cs = ['<', '<'] then Tag.merge
  else if looksLikeNull cs then Tag.null
  else if looksLikeTimestamp cs then Tag.timestamp
  else if cs = ['='] then Tag.value
  else if cs = ['!'] || cs = ['&'] || cs = ['*'] then Tag.mark
  else Tag.str

end LayeredConfig.Yaml
