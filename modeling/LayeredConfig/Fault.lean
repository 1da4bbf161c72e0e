import LayeredConfig.Number.Integer
import LayeredConfig.Text.Quoted
import LayeredConfig.Time.Duration

/-!
# Faults

What can go wrong outside the library's own errors: a number that cannot be read or written, a date
that does not exist, a container used against its shape, a path that names nothing. The library
does not catch these where they arise, so they reach the caller as they are.
-/

namespace LayeredConfig

inductive Fault where
  /-- Decimal text with more digits than are read. -/
  | digitsTooMany (digits : Nat)
  /-- A whole number with more digits than are written. -/
  | integerTooLong
  | malformedInteger (base : Nat) (text : Text)
  | malformedFloat (text : Text)
  /-- A text that is no date or time. -/
  | malformedMoment (text : String)
  | negativeIndex (position : Int)
  /-- A format that is none, as messages show it. -/
  | unknownFormat (shown : String)
  | unknownMode (shown : String)
  | emptyBaseName
  | yearOutOfRange (year : Nat)
  | monthOutOfRange
  | dayOutOfRange
  | hourOutOfRange
  | minuteOutOfRange
  | secondOutOfRange
  /-- An offset from universal time, in microseconds, of a day or more. -/
  | offsetOutOfRange (micros : Int)
  /-- An escape beyond the last code point. -/
  | codeOutOfRange
  /-- An escape beyond what a machine integer holds. -/
  | codeTooLarge
  /-- A whole number beyond the largest floating-point one. -/
  | beyondFloat
  /-- A path with a NUL character, which no file system admits. -/
  | nulInPath
  /-- A path, or a part of one, with more bytes than a file system admits. -/
  | pathTooLong
  /-- A path that may not be looked at. -/
  | notPermitted
  /-- A path that could not be looked at. -/
  | notReachable
  /-- A file that stands where a directory is to be made. -/
  | fileInTheWay
  /-- A file that a path goes through. -/
  | notADirectory
  /-- A directory that stands where a file is to be written. -/
  | directoryInTheWay
  /-- The text of a scalar taken for the entries of a mapping. -/
  | textForEntries
  /-- A node of a sequence taken for an entry of a mapping. -/
  | nodeForEntry
  /-- A numeric tag on a text without any character for its digits. -/
  | noDigits
  /-- A tag for a truth value on a text that names none. -/
  | unknownTruth
  /-- A tag for a date on a text that is none. -/
  | notATimestamp
  /-- A tag for a date on a mapping. -/
  | mappingForTimestamp
  /-- A value of this type where only leaves may stand. -/
  | unsupportedLeaf (typeName : String)
  /-- A value written under a key of something that is no object. -/
  | keyStore
  /-- A step by a key into something that is no object. -/
  | keyStep
  /-- A position behind the end of something that is no array. -/
  | indexBehindEnd
  /-- A value written at a position of a text. -/
  | indexStore
  /-- A position of something without positions. -/
  | indexOfScalar
  /-- A step by a position into an object. -/
  | indexOfObject
  /-- A value that no mapping can have as a key. -/
  | notAKey
  /-- Wrong number or kind of arguments. -/
  | badArguments
  /-- A structure too deep to be walked. -/
  | tooDeep
  deriving DecidableEq, Repr

namespace Fault

def digitLimitText : String := Integer.text Integer.digitLimit

def limitAdvice : String := "; use sys.set_int_max_str_digits() to increase the limit"

def message? : Fault → Option String
  | .digitsTooMany n => some <|
    "Exceeds the limit (" ++ digitLimitText ++ " digits) for integer string conversion" ++
      ": value has " ++ Integer.text n ++ " digits" ++ limitAdvice
  | .integerTooLong => some <|
    "Exceeds the limit (" ++ digitLimitText ++ " digits) for integer string conversion" ++
      limitAdvice
  | .malformedInteger base text => some <|
    "invalid literal for int() with base " ++ Integer.text base ++ ": " ++
      String.ofList ((Text.quote text).toList.take 200)
  | .malformedFloat text => some <| "could not convert string to float: " ++ Text.quote text
  | .malformedMoment text => some <| "Invalid isoformat string: " ++ Text.quote text
  | .negativeIndex n => some <| "Index segments must be non-negative, got " ++ Integer.text n
  | .unknownFormat shown => some (shown ++ " is not a valid Format")
  | .unknownMode shown => some (shown ++ " is not a valid ResolveMode")
  | .emptyBaseName => some "base_name must not be empty"
  | .yearOutOfRange n => some <| "year " ++ Integer.text n ++ " is out of range"
  | .monthOutOfRange => some "month must be in 1..12"
  | .dayOutOfRange => some "day is out of range for month"
  | .hourOutOfRange => some "hour must be in 0..23"
  | .minuteOutOfRange => some "minute must be in 0..59"
  | .secondOutOfRange => some "second must be in 0..59"
  | .offsetOutOfRange n => some <|
    "offset must be a timedelta strictly between -timedelta(hours=24) and " ++
      "timedelta(hours=24), not " ++ Duration.shown n ++ "."
  | .codeOutOfRange => some "chr() arg not in range(0x110000)"
  | .nulInPath => some "embedded null byte"
  | .textForEntries => some "not enough values to unpack (expected 2, got 1)"
  | .unsupportedLeaf name => some <| "unsupported leaf type: " ++ name
  | _ => none

end Fault

end LayeredConfig
