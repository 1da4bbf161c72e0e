import LayeredConfig.Time.Read
import LayeredConfig.Toml.Basic

/-!
# TOML: dates and times

A date, a time of day, or both with a `T` or a space between them and possibly an offset. Seconds
are required. The numbers have to be in range to be taken for a date at all; only a day that its
month does not have, or the year zero, is a problem of its own.
-/

namespace LayeredConfig.Toml

def takeTwo (low high : Nat) (cs : List Char) : Option (Nat × List Char) := do
  let (n, rest) ← Moment.takeDigits 2 cs
  if low ≤ n && n ≤ high then some (n, rest) else none

def takeClock (cs : List Char) : Option (Clock × List Char) := do
  let (hour, cs) ← takeTwo 0 23 cs
  let cs ← Moment.takeMark ':' cs
  let (minute, cs) ← takeTwo 0 59 cs
  let cs ← Moment.takeMark ':' cs
  let (second, cs) ← takeTwo 0 59 cs
  match cs with
  | '.' :: c :: rest =>
    if Text.isDigit c then
      let (micro, rest) := Moment.takeFraction ('.' :: c :: rest)
      return (⟨hour, minute, second, micro⟩, rest)
    else return (⟨hour, minute, second, 0⟩, cs)
  | _ => return (⟨hour, minute, second, 0⟩, cs)

def takeOffset (cs : List Char) : Option Int × List Char :=
  match cs with
  | [] => (none, cs)
  | sign :: rest =>
    if sign = 'Z' || sign = 'z' then (some 0, rest)
    else
      let offset? := do
        let (hours, rest) ← takeTwo 0 23 rest
        let rest ← Moment.takeMark ':' rest
        let (minutes, rest) ← takeTwo 0 59 rest
        let size : Int := (hours * 60 + minutes) * 60000000
        if sign = '+' then some (size, rest)
        else if sign = '-' then some (-size, rest)
        else none
      match offset? with
      | some (offset, rest) => (some offset, rest)
      | none => (none, cs)

def takeTimeOfDay? : List Char → Option ((Clock × Option Int) × List Char)
  | [] => none
  | mark :: rest =>
    if mark = 'T' || mark = 't' || mark = ' ' then do
      let (clock, rest) ← takeClock rest
      let (offset, rest) := takeOffset rest
      return ((clock, offset), rest)
    else none

/-- A date with or without a time, or a time alone, if one stands at the front. -/
def takeMoment? (cs : List Char) : Option (Except Stop (Moment × List Char)) :=
  let date? := do
    let (year, rest) ← Moment.takeDigits 4 cs
    let rest ← Moment.takeMark '-' rest
    let (month, rest) ← takeTwo 1 12 rest
    let rest ← Moment.takeMark '-' rest
    let (day, rest) ← takeTwo 1 31 rest
    return (Date.check year month day, rest)
  match date? with
  | some (.error _, _) => some (problemAt .invalidMoment cs)
  | some (.ok found, rest) =>
    match takeTimeOfDay? rest with
    | some ((clock, offset), rest) => some (.ok (.dateTime found clock offset, rest))
    | none => some (.ok (.date found, rest))
  | none => (takeClock cs).map fun (clock, rest) => .ok (.time clock none, rest)

end LayeredConfig.Toml
