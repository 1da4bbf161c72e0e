import LayeredConfig.Time.Moment

/-!
# Reading dates and times

ISO forms. A date is written `2024-05-01`, `20240501`, or by its week as `2024-W18-3`, `2024W183`
or without the day for Monday. A time is written `12:30:15.5`, `123015.5`, or without its smaller
parts; a fraction may have any number of digits, of which six count. An offset is a sign with a
time behind it, or `Z`.

A time before an offset is read loosely: one more character, or anything behind six digits of a
fraction, is passed over.
-/

namespace LayeredConfig.Moment

def takeDigits (n : Nat) (cs : List Char) : Option (Nat × List Char) :=
  let digits := cs.take n
  if digits.length = n && digits.all Text.isDigit then
    some (Text.ofDigits 10 (digits.filterMap Text.hexValue?), cs.drop n)
  else none

def takeMark (mark : Char) : List Char → Option (List Char)
  | c :: rest => if c = mark then some rest else none
  | [] => none

def fractionMicros (digits : List Char) : Nat :=
  let six := (digits ++ List.replicate 6 '0').take 6
  Text.ofDigits 10 (six.filterMap Text.hexValue?)

def takeFraction : List Char → Nat × List Char
  | '.' :: rest => (fractionMicros (rest.takeWhile Text.isDigit), rest.dropWhile Text.isDigit)
  | cs => (0, cs)

/-- The rest behind a separator, where one is in use. -/
def takeSeparator (mark? : Option Char) (cs : List Char) : Option (List Char) :=
  match mark? with
  | some mark => takeMark mark cs
  | none => some cs

/-- Whether a mark follows, as a separator in use, and what is behind it. -/
def separatorAt (mark : Char) (cs : List Char) : Option Char × List Char :=
  match takeMark mark cs with
  | some rest => (some mark, rest)
  | none => (none, cs)

-- ---------------------------------------------------------------------------
-- Dates
-- ---------------------------------------------------------------------------

/-- The date that is so many days after the start of a year, counted from one and back into the
year before or on into the next. -/
def dateAtDay (year : Nat) (day : Int) : Except Fault Date :=
  let length (y : Nat) : Int := if Date.isLeapYear y then 366 else 365
  let (year, day) :=
    if day < 1 then (year - 1, day + length (year - 1))
    else if length year < day then (year + 1, day - length year)
    else (year, day)
  let (month, day) := (List.range 11).foldl (fun (month, day) n =>
    let days := Date.daysInMonth year (n + 1)
    if month = n + 1 && days < day then (n + 2, day - days) else (month, day)) (1, day.toNat)
  Date.check year month day

/-- The weekday of the first of January: Monday is zero. -/
def firstWeekday (year : Nat) : Nat := ((⟨year, 1, 1⟩ : Date).ordinal + 6) % 7

/-- Whether a year has 53 weeks: its first or last day is a Thursday. -/
def isLongYear (year : Nat) : Bool :=
  firstWeekday year = 3 || (Date.isLeapYear year && firstWeekday year = 2)

/-- The date of a weekday, Monday being one. The first week of a year holds its first Thursday. -/
def dateOfWeek (year week weekday : Nat) : Option (Except Fault Date) :=
  if week < 1 || 53 < week || (week = 53 && !isLongYear year) || weekday < 1 || 7 < weekday then
    none
  else if year < 1 then some (.error .monthOutOfRange)
  else
    let first := firstWeekday year
    let monday : Int := if first ≤ 3 then 1 - first else 8 - first
    some (dateAtDay year (monday + 7 * (week - 1) + (weekday - 1)))

/-- Whether the day stands behind the week. Without separators it does if an even number of digits
follows, which are the day, a digit that separates, and a time; with them, unless two digits
follow, which are the hour of a time behind a hyphen. -/
def hasWeekday (mark? : Option Char) (cs : List Char) : Bool :=
  match mark? with
  | some mark => cs.head? = some mark && !cs[2]?.any Text.isDigit
  | none =>
    let digits := (cs.takeWhile Text.isDigit).length
    digits = 1 || (0 < digits && digits % 2 = 0)

def takeWeekDate (year : Nat) (mark? : Option Char) (cs : List Char) :
    Option (Except Fault Date × List Char) := do
  let (week, cs) ← takeDigits 2 cs
  let (weekday, cs) ←
    if hasWeekday mark? cs then (takeSeparator mark? cs).bind (takeDigits 1) else some (1, cs)
  return (← dateOfWeek year week weekday, cs)

/-- The date at the front of a text, which the calendar may not have. -/
def takeDate (cs : List Char) : Option (Except Fault Date × List Char) := do
  let (year, cs) ← takeDigits 4 cs
  let (mark?, cs) := separatorAt '-' cs
  if let 'W' :: cs := cs then takeWeekDate year mark? cs
  else
    let (month, cs) ← takeDigits 2 cs
    let (day, cs) ← takeDigits 2 (← takeSeparator mark? cs)
    return (Date.check year month day, cs)

-- ---------------------------------------------------------------------------
-- Times
-- ---------------------------------------------------------------------------

/-- A time as written, which no day need have. -/
structure Written where
  hour : Nat
  minute : Nat
  second : Nat
  micro : Nat

/-- Microseconds, if the text is the digits of a fraction. Loosely, six digits are enough. -/
def readFraction (loose : Bool) (cs : List Char) : Option Nat :=
  if (cs.take 6).all Text.isDigit && (loose || (cs.drop 6).all Text.isDigit) then
    some (fractionMicros cs)
  else none

/-- Up to so many numbers of two digits, and the fraction behind them. The first separator, or its
absence, decides whether the others are written. -/
def readNumbers (loose : Bool) (extended? : Option Bool) :
    (parts : Nat) → List Char → Option (List Nat × Nat)
  | 0, cs => do return ([], ← readFraction loose cs)
  | parts + 1, cs => do
    let (number, rest) ← takeDigits 2 cs
    let extended := extended?.getD (rest.head? = some ':')
    match rest with
    | [] => return ([number], 0)
    | [_] => if loose then return ([number], 0) else none
    | mark :: more =>
      if mark = '.' || mark = ',' then return ([number], ← readFraction loose more)
      else if extended && mark ≠ ':' then none
      else
        let rest := if extended then more else rest
        let (numbers, micro) ← readNumbers loose (some extended) parts rest
        return (number :: numbers, micro)

/-- The time that is the whole text. A fraction is one of a second, whatever it follows. -/
def readWritten (loose : Bool) (cs : List Char) : Option Written := do
  let (numbers, micro) ← readNumbers loose none 3 cs
  return ⟨numbers[0]?.getD 0, numbers[1]?.getD 0, numbers[2]?.getD 0, micro⟩

def Written.check (w : Written) : Except Fault Clock :=
  Clock.check w.hour w.minute w.second w.micro

def Written.micros (w : Written) : Nat :=
  ((w.hour * 60 + w.minute) * 60 + w.second) * 1000000 + w.micro

/-- The time and the offset that are the whole text. -/
def readZoned (cs : List Char) : Option (Written × Option Int) :=
  let isZone (c : Char) : Bool := c = 'Z' || c = '+' || c = '-'
  let time := cs.takeWhile (!isZone ·)
  match cs.dropWhile (!isZone ·) with
  | [] => do return (← readWritten false time, none)
  | 'Z' :: rest => if rest.isEmpty then do return (← readWritten true time, some 0) else none
  | sign :: rest => do
    let offset : Int := (← readWritten false rest).micros
    return (← readWritten true time, some (if sign = '+' then offset else -offset))

/-- An offset is less than a day. -/
def checkOffset : Option Int → Except Fault Unit
  | some offset =>
    if 86400000000 ≤ offset.natAbs then .error (.offsetOutOfRange offset) else .ok ()
  | none => .ok ()

-- ---------------------------------------------------------------------------
-- Moments
-- ---------------------------------------------------------------------------

def orMalformed (cs : List Char) (x : Option (Except Fault Moment)) : Except Fault Moment :=
  x.getD (.error (.malformedMoment (String.ofList cs)))

def readTime (cs : List Char) : Except Fault Moment :=
  orMalformed cs <|
    (readZoned (if cs.head? = some 'T' then cs.drop 1 else cs)).map fun (written, offset) => do
      checkOffset offset
      return .time (← written.check) offset

def readDate (cs : List Char) : Except Fault Moment :=
  orMalformed cs <| do
    let (found, rest) ← takeDate cs
    if rest.isEmpty then return found.map .date else none

/-- A date and a time with any character between them; the date alone means midnight. -/
def readDateTime (cs : List Char) : Except Fault Moment :=
  orMalformed cs <| do
    let (found, rest) ← takeDate cs
    match rest with
    | [] => return found.map (.dateTime · ⟨0, 0, 0, 0⟩ none)
    | _ :: rest =>
      let (written, offset) ← readZoned rest
      return do
        checkOffset offset
        return .dateTime (← found) (← written.check) offset

end LayeredConfig.Moment
