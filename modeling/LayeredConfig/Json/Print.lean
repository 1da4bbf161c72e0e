import LayeredConfig.Document.Basic
import LayeredConfig.Json.Text

/-!
# JSON: writing

Writes a document on one line, or with every member and item on a line of its own, indented by its
depth.
-/

namespace LayeredConfig.Json

/-- Floating-point numbers in their standard text, with the names that reading accepts. -/
def floatStyle : FloatStyle :=
  { FloatStyle.standard with infinity := "Infinity", notANumber := "NaN" }

def writeLeaf : Leaf → List Char
  | .null => ['n', 'u', 'l', 'l']
  | .bool true => ['t', 'r', 'u', 'e']
  | .bool false => ['f', 'a', 'l', 's', 'e']
  | .int n => (Integer.text n).toList
  | .float x => (floatStyle.write x).toList
  | .str s => writeString s

/-- Scalars that are no leaves are written as the strings that show them. -/
def writeScalar : Scalar → List Char
  | .leaf v => writeLeaf v
  | s => writeString s.shown

/-- Names are strings; any other scalar is written between quotes. -/
def writeName : Scalar → List Char
  | .leaf (.str s) => writeString s
  | .leaf v => '"' :: writeLeaf v ++ ['"']
  | s => writeString s.shown

/-- What stands before the first item at a depth, when items have lines of their own that are
indented by `indent` blanks for each container around them. -/
def lineBreak (indent : Option Nat) (depth : Nat) : List Char :=
  match indent with
  | none => []
  | some width => '\n' :: List.replicate (width * depth) ' '

def separator (indent : Option Nat) (depth : Nat) : List Char :=
  match indent with
  | none => [',', ' ']
  | some _ => ',' :: lineBreak indent depth

mutual

def write (indent : Option Nat) (depth : Nat) : Document → List Char
  | .scalar s => writeScalar s
  | .list [] => ['[', ']']
  | .list (d :: rest) =>
    '[' :: lineBreak indent (depth + 1) ++ write indent (depth + 1) d ++
      writeItems indent (depth + 1) rest ++ lineBreak indent depth ++ [']']
  | .map [] => ['{', '}']
  | .map ((k, d) :: rest) =>
    '{' :: lineBreak indent (depth + 1) ++ writeName k ++ [':', ' '] ++
      write indent (depth + 1) d ++ writeFields indent (depth + 1) rest ++
      lineBreak indent depth ++ ['}']

def writeItems (indent : Option Nat) (depth : Nat) : List Document → List Char
  | [] => []
  | d :: rest => separator indent depth ++ write indent depth d ++ writeItems indent depth rest

def writeFields (indent : Option Nat) (depth : Nat) : List (Scalar × Document) → List Char
  | [] => []
  | (k, d) :: rest =>
    separator indent depth ++ writeName k ++ [':', ' '] ++ write indent depth d ++
      writeFields indent depth rest

end

/-- The text of a document. A negative indent is as good as none, on lines of their own. -/
def print (indent : Option Int) (d : Document) : String :=
  String.ofList (write (indent.map Int.toNat) 0 d)

end LayeredConfig.Json
