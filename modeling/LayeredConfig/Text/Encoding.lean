import LayeredConfig.Number.Integer
import LayeredConfig.Text.Quoted

/-!
# Encodings

Reads bytes as text. UTF-8 is read strictly: overlong forms, halves of surrogate pairs and codes
beyond the last character are refused, with the bytes that are to blame.
-/

namespace LayeredConfig

inductive Encoding where
  | utf8
  | ascii
  | latin1
  deriving DecidableEq, Repr

namespace Encoding

def name : Encoding → String
  | .utf8 => "utf-8"
  | .ascii => "ascii"
  | .latin1 => "latin-1"

/-- Why bytes are no text: `count` bytes from `start` on, the first of which is `byte`. -/
structure Refusal where
  encoding : Encoding
  byte : UInt8
  start : Nat
  count : Nat
  reason : String
  deriving DecidableEq, Repr

/-- The bytes to blame, by number or by place. -/
def span (one many shown : String) (start count : Nat) : String :=
  if count = 1 then one ++ " " ++ shown ++ " in position " ++ Integer.text start
  else many ++ " in position " ++ Integer.text start ++ "-" ++ Integer.text (start + count - 1)

def Refusal.message (r : Refusal) : String :=
  let shown := "0x" ++ String.ofList (Text.hexDigits 2 r.byte.toNat)
  "'" ++ r.encoding.name ++ "' codec can't decode " ++ span "byte" "bytes" shown r.start r.count ++
    ": " ++ r.reason

def isContinuation (b : UInt8) : Bool := 0x80 ≤ b && b < 0xc0

def isSecond (first second : UInt8) : Bool :=
  isContinuation second &&
    (if first = 0xe0 then 0xa0 ≤ second
    else if first = 0xed then second < 0xa0
    else if first = 0xf0 then 0x90 ≤ second
    else if first = 0xf4 then second < 0x90
    else true)

/-- How many continuation bytes a first byte calls for. -/
def continuations? (first : UInt8) : Option Nat :=
  if first < 0x80 then some 0
  else if first < 0xc2 then none
  else if first < 0xe0 then some 1
  else if first < 0xf0 then some 2
  else if first < 0xf5 then some 3
  else none

/-- The bytes behind a first byte that continue its character, at most `wanted` of them. -/
def takeContinuations (first : UInt8) (wanted : Nat) : List UInt8 → List UInt8
  | [] => []
  | second :: rest =>
    if wanted ≠ 0 && isSecond first second then
      second :: (rest.take (wanted - 1)).takeWhile isContinuation
    else []

def joinBytes (first : UInt8) (more : List UInt8) : Char :=
  let lead := match more.length with
    | 0 => first.toNat
    | 1 => first.toNat - 0xc0
    | 2 => first.toNat - 0xe0
    | _ => first.toNat - 0xf0
  Char.ofNat (more.foldl (fun n b => n * 64 + (b.toNat - 0x80)) lead)

/-- The characters of bytes that start at `position`. `fuel` bounds the number of characters. -/
def decodeUtf8From : (fuel position : Nat) → List UInt8 → Except Refusal (List Char)
  | 0, _, _ => .ok []
  | _, _, [] => .ok []
  | fuel + 1, position, first :: rest =>
    let refused (count : Nat) (reason : String) : Except Refusal (List Char) :=
      .error ⟨.utf8, first, position, count, reason⟩
    match continuations? first with
    | none => refused 1 "invalid start byte"
    | some wanted =>
      let more := takeContinuations first wanted rest
      if more.length = wanted then do
        let cs ← decodeUtf8From fuel (position + wanted + 1) (rest.drop wanted)
        return joinBytes first more :: cs
      else if more.length = rest.length then
        refused (more.length + 1) "unexpected end of data"
      else refused (more.length + 1) "invalid continuation byte"

def decodeAsciiFrom (position : Nat) : List UInt8 → Except Refusal (List Char)
  | [] => .ok []
  | b :: rest =>
    if b < 0x80 then do
      return Char.ofNat b.toNat :: (← decodeAsciiFrom (position + 1) rest)
    else .error ⟨.ascii, b, position, 1, "ordinal not in range(128)"⟩

def decode (encoding : Encoding) (bytes : List UInt8) : Except Refusal (List Char) :=
  match encoding with
  | .utf8 => decodeUtf8From (bytes.length + 1) 0 bytes
  | .ascii => decodeAsciiFrom 0 bytes
  | .latin1 => .ok (bytes.map fun b => Char.ofNat b.toNat)

def asciiProblem? (t : Text) : Option String :=
  let isAscii (p : CodePoint) : Bool := p.toNat < 128
  let start := (t.points.takeWhile isAscii).length
  match t.points.drop start with
  | [] => none
  | p :: rest =>
    let count := (rest.takeWhile (!isAscii ·)).length + 1
    let shown := "'" ++ String.ofList (Text.escapeCode p.toNat) ++ "'"
    some <| "'ascii' codec can't encode " ++ span "character" "characters" shown start count ++
      ": ordinal not in range(128)"

end Encoding

end LayeredConfig
