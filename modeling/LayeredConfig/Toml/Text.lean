import LayeredConfig.Text.Scan
import LayeredConfig.Toml.Basic

/-!
# TOML: strings

Basic strings stand in double quotes and have escapes; literal strings stand in single quotes and
have none. Three quotes enclose several lines, of which an empty first one does not count. Up to two
quotes may stand right before the closing three.
-/

namespace LayeredConfig.Toml

def unescape? : Char → Option Char
  | 'b' => some '\x08'
  | 't' => some '\t'
  | 'n' => some '\n'
  | 'f' => some '\x0c'
  | 'r' => some '\r'
  | '"' => some '"'
  | '\\' => some '\\'
  | _ => none

def takeCode (width : Nat) (cs : List Char) : Except Stop (List Char × List Char) :=
  let digits := (cs.take width).filterMap Text.hexValue?
  if digits.length ≠ width then problemAt .badHexadecimal cs
  else
    let n := Text.ofDigits 16 digits
    if n < 0xd800 || (0xe000 ≤ n && n ≤ 0x10ffff) then .ok ([Char.ofNat n], cs.drop width)
    else problemAt .noCharacter (cs.drop width)

/-- The end of a line that is escaped in a string of several lines takes with it the blanks around
it and the empty lines that follow. -/
def joinLines (cs : List Char) : Except Stop (List Char × List Char) :=
  match skipSpace cs with
  | [] => .ok ([], [])
  | '\n' :: rest => .ok ([], skipLines rest)
  | rest => problemAt .badEscape rest

/-- What an escape stands for, from behind its backslash on. -/
def takeEscape (multiline : Bool) : List Char → Except Stop (List Char × List Char)
  | [] => problemAt .badEscape []
  | 'u' :: rest => takeCode 4 rest
  | 'U' :: rest => takeCode 8 rest
  | c :: rest =>
    if multiline && c = '\n' then .ok ([], skipLines rest)
    else if multiline && isSpace c then joinLines rest
    else match unescape? c with
      | some e => .ok ([e], rest)
      | none => problemAt .badEscape rest

/-- The characters of a basic string up to its end, and what follows that. `fuel` bounds the number
of characters. -/
def takeBasic (multiline : Bool) : (fuel : Nat) → List Char → Except Stop (List Char × List Char)
  | 0, cs => problemAt .unterminatedString cs
  | _, [] => problemAt .unterminatedString []
  | fuel + 1, '"' :: rest =>
    if !multiline then .ok ([], rest)
    else match rest with
      | '"' :: '"' :: rest => .ok ([], rest)
      | rest => do
        let (cs, rest) ← takeBasic multiline fuel rest
        return ('"' :: cs, rest)
  | fuel + 1, '\\' :: rest => do
    let (here, rest) ← takeEscape multiline rest
    let (cs, rest) ← takeBasic multiline fuel rest
    return (here ++ cs, rest)
  | fuel + 1, c :: rest =>
    if isControl c && !(multiline && c = '\n') then problemAt (.illegalCharacter c) (c :: rest)
    else do
      let (cs, rest) ← takeBasic multiline fuel rest
      return (c :: cs, rest)

def takeLiteral (delimiter : List Char) (isIllegal : Char → Bool) (cs : List Char) :
    Except Stop (List Char × List Char) :=
  match Text.splitAt? delimiter cs with
  | none => problemAt (.expected (String.ofList delimiter)) []
  | some (span, rest) => do
    refuse isIllegal span cs
    return (span, rest)

def takeLine? : List Char → Option (Except Stop (List Char × List Char))
  | '"' :: rest => some (takeBasic false (rest.length + 1) rest)
  | '\'' :: rest => some (takeLiteral ['\''] isControl rest)
  | _ => none

/-- A line end right behind the opening quotes does not count. -/
def dropFirstLineEnd : List Char → List Char
  | '\n' :: rest => rest
  | cs => cs

/-- The text with up to two quotes that stand behind the closing three. -/
def withTrailing (quote : Char) (found : List Char × List Char) : List Char × List Char :=
  let extra := (found.2.take 2).takeWhile (· = quote)
  (found.1 ++ extra, found.2.drop extra.length)

def takeString? : List Char → Option (Except Stop (List Char × List Char))
  | '"' :: '"' :: '"' :: rest =>
    let body := dropFirstLineEnd rest
    some ((takeBasic true (body.length + 1) body).map (withTrailing '"'))
  | '\'' :: '\'' :: '\'' :: rest =>
    let isIllegal (c : Char) : Bool := isControl c && c ≠ '\n'
    some ((takeLiteral ['\'', '\'', '\''] isIllegal (dropFirstLineEnd rest)).map
      (withTrailing '\''))
  | cs => takeLine? cs

end LayeredConfig.Toml
