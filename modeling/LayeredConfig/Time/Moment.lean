import LayeredConfig.Fault

/-!
# Dates and times

A date of the proleptic Gregorian calendar, a time of day, or both, with an offset from universal
time where one is known. The written form is the extended ISO one.
-/

namespace LayeredConfig

structure Date where
  year : Nat
  month : Nat
  day : Nat
  deriving DecidableEq, Repr

/-- A time of day, down to the microsecond. -/
structure Clock where
  hour : Nat
  minute : Nat
  second : Nat
  micro : Nat
  deriving DecidableEq, Repr

/-- Offsets are in microseconds, positive to the east. -/
inductive Moment where
  | date (date : Date)
  | time (clock : Clock) (offset : Option Int)
  | dateTime (date : Date) (clock : Clock) (offset : Option Int)
  deriving DecidableEq, Repr

/-- The digits of `n`, padded with zeros to `width`. -/
def padded (width n : Nat) : String :=
  let digits := Nat.toDigits 10 n
  String.ofList (List.replicate (width - digits.length) '0' ++ digits)

namespace Date

def isLeapYear (year : Nat) : Bool :=
  year % 4 == 0 && (year % 100 != 0 || year % 400 == 0)

def daysInMonth (year month : Nat) : Nat :=
  if month = 2 then (if isLeapYear year then 29 else 28)
  else if month = 4 || month = 6 || month = 9 || month = 11 then 30
  else 31

def check (year month day : Nat) : Except Fault Date :=
  if year < 1 || 9999 < year then .error (.yearOutOfRange year)
  else if month < 1 || 12 < month then .error .monthOutOfRange
  else if day < 1 || daysInMonth year month < day then .error .dayOutOfRange
  else .ok ⟨year, month, day⟩

def text (d : Date) : String :=
  padded 4 d.year ++ "-" ++ padded 2 d.month ++ "-" ++ padded 2 d.day

def ordinal (d : Date) : Nat :=
  let y := d.year - 1
  let before := (List.range (d.month - 1)).foldl (fun n m => n + daysInMonth d.year (m + 1)) 0
  y * 365 + y / 4 - y / 100 + y / 400 + before + d.day

end Date

namespace Clock

def check (hour minute second micro : Nat) : Except Fault Clock :=
  if 23 < hour then .error .hourOutOfRange
  else if 59 < minute then .error .minuteOutOfRange
  else if 59 < second then .error .secondOutOfRange
  else .ok ⟨hour, minute, second, micro⟩

def text (c : Clock) : String :=
  padded 2 c.hour ++ ":" ++ padded 2 c.minute ++ ":" ++ padded 2 c.second ++
    (if c.micro = 0 then "" else "." ++ padded 6 c.micro)

def micros (c : Clock) : Nat :=
  ((c.hour * 60 + c.minute) * 60 + c.second) * 1000000 + c.micro

def ofMicros (n : Nat) : Clock :=
  ⟨n / 3600000000, n / 60000000 % 60, n / 1000000 % 60, n % 1000000⟩

end Clock

namespace Moment

/-- An offset with its sign; seconds and microseconds only where they are not zero. -/
def offsetText (offset : Int) : String :=
  let c := Clock.ofMicros offset.natAbs
  (if offset < 0 then "-" else "+") ++
    (if c.second = 0 && c.micro = 0 then padded 2 c.hour ++ ":" ++ padded 2 c.minute else c.text)

def zoneText : Option Int → String
  | none => ""
  | some offset => offsetText offset

/-- The written form with `separator` between date and time. -/
def textWith (separator : String) : Moment → String
  | .date d => d.text
  | .time c offset => c.text ++ zoneText offset
  | .dateTime d c offset => d.text ++ separator ++ c.text ++ zoneText offset

def iso (m : Moment) : String := m.textWith "T"

/-- The same instant. One side with an offset and one without are never the same. -/
def equals : Moment → Moment → Bool
  | .date d, .date e => d = e
  | .time c o, .time d p =>
    o.isSome == p.isSome && (c.micros : Int) - o.getD 0 == (d.micros : Int) - p.getD 0
  | .dateTime d c o, .dateTime e f p =>
    o.isSome == p.isSome &&
      (d.ordinal : Int) * 86400000000 + c.micros - o.getD 0 ==
        (e.ordinal : Int) * 86400000000 + f.micros - p.getD 0
  | _, _ => false

/-- Microseconds as text, turned into those of universal time where an offset is known. -/
def instantText (micros : Int) : Option Int → String
  | none => Integer.text micros
  | some offset => Integer.text (micros - offset) ++ "Z"

def identity : Moment → String
  | .date d => d.text
  | .time c offset => "time " ++ instantText c.micros offset
  | .dateTime d c offset =>
    "instant " ++ instantText ((d.ordinal : Int) * 86400000000 + c.micros) offset

def typeName : Moment → String
  | .date _ => "date"
  | .time .. => "time"
  | .dateTime .. => "datetime"

-- ---------------------------------------------------------------------------
-- As messages show them
-- ---------------------------------------------------------------------------

def zoneShown : Option Int → List String
  | none => []
  | some 0 => ["tzinfo=datetime.timezone.utc"]
  | some offset => ["tzinfo=datetime.timezone(" ++ Duration.shown offset ++ ")"]

def clockShown (c : Clock) : List String :=
  [Integer.text c.hour, Integer.text c.minute] ++
    (if c.second = 0 && c.micro = 0 then [] else [Integer.text c.second]) ++
    (if c.micro = 0 then [] else [Integer.text c.micro])

def dateShown (d : Date) : List String :=
  [Integer.text d.year, Integer.text d.month, Integer.text d.day]

def shown (m : Moment) : String :=
  let arguments := match m with
    | .date d => dateShown d
    | .time c offset => clockShown c ++ zoneShown offset
    | .dateTime d c offset => dateShown d ++ clockShown c ++ zoneShown offset
  "datetime." ++ m.typeName ++ "(" ++ ", ".intercalate arguments ++ ")"

end Moment

end LayeredConfig
