import LayeredConfig.Text.Lowercase
import LayeredConfig.Text.Scan

/-!
# File paths

Paths of files as texts with slashes. The normal form of a path has no empty part and no `.`; a
`..` stays, because where it leads depends on the files.
-/

namespace LayeredConfig

structure FilePath where
  /-- The slashes that an absolute path starts with; empty for a relative one. -/
  root : String
  parts : List String
  deriving DecidableEq, Repr

namespace FilePath

/-- Two slashes make a root of their own; any other number of them makes the common root. -/
def rootOf : (slashes : Nat) → String
  | 0 => ""
  | 2 => "//"
  | _ => "/"

def isPart (part : List Char) : Bool := !part.isEmpty && part ≠ ['.']

def read (text : String) : FilePath :=
  ⟨rootOf (text.toList.takeWhile (· = '/')).length,
    ((Text.splitOn '/' text.toList).filter isPart).map String.ofList⟩

def isAbsolute (p : FilePath) : Bool := !p.root.isEmpty

def text (p : FilePath) : String :=
  if p.root.isEmpty && p.parts.isEmpty then "." else p.root ++ "/".intercalate p.parts

/-- A text with a NUL character names no path. -/
def hasNul (text : String) : Bool := text.toList.contains '\x00'

def name (p : FilePath) : String := p.parts.getLast?.getD ""

/-- A name before and after its last dot, provided that something stands on both sides of it. -/
def splitName (name : List Char) : List Char × Option (List Char) :=
  let before := ((name.reverse.dropWhile (· ≠ '.')).drop 1).reverse
  let after := (name.reverse.takeWhile (· ≠ '.')).reverse
  if before.isEmpty || after.isEmpty then (name, none) else (before, some after)

def stem (p : FilePath) : String := String.ofList (splitName p.name.toList).1

/-- What follows the last dot of the name, in lower case. -/
def extension? (p : FilePath) : Option String :=
  (splitName p.name.toList).2.map fun after => Text.lower (String.ofList after)

def join (p q : FilePath) : FilePath :=
  if q.isAbsolute then q else ⟨p.root, p.parts ++ q.parts⟩

def parent (p : FilePath) : FilePath := ⟨p.root, p.parts.dropLast⟩

/-- The absolute path without any `..`, where no links intervene. -/
def resolve (directory p : FilePath) : FilePath :=
  ⟨"/", (join directory p).parts.foldl
    (fun parts part => if part = ".." then parts.dropLast else parts ++ [part]) []⟩

end FilePath

end LayeredConfig
