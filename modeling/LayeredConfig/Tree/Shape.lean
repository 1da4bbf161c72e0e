import LayeredConfig.Error
import LayeredConfig.Path.Text
import LayeredConfig.Tree.Basic

/-!
# The shape of a tree

A tree describes a document when it is not empty, stores nothing at the root, stores no value at a
path that leads to another one, and uses no place both as an object and as an array.
-/

namespace LayeredConfig

namespace Tree

inductive ShapeFault where
  | empty
  | valueWithoutKey
  | leafAndBranch (leaf below : Path)
  | objectAndArray (place : Path)
  deriving DecidableEq, Repr

variable {α : Type}

/-- The nearest place on the way to `p`, short of the root, at which `t` stores a value. -/
def storedAbove? (t : Tree α) (p : Path) : Option Path :=
  p.ancestors.find? fun q => !q.isRoot && t.contains q

/-- The first stored path that leads through another one, with that one. -/
def leafAndBranch? (t : Tree α) : Option (Path × Path) :=
  t.keys.findSome? fun p => (t.storedAbove? p).map (·, p)

/-- Every place on the way to a path, the root first, with whether an index comes next. -/
def steps (p : Path) : List (Path × Bool) :=
  p.segments.zipIdx.map fun (s, n) => (⟨p.segments.take n⟩, s.isIndex)

/-- The first place that is used in a way other than before. -/
def firstClash (seen : List (Path × Bool)) : List (Path × Bool) → Option Path
  | [] => none
  | (place, isIndex) :: rest =>
    match seen.lookup place with
    | some before => if before = isIndex then firstClash seen rest else some place
    | none => firstClash ((place, isIndex) :: seen) rest

def objectAndArray? (t : Tree α) : Option Path :=
  firstClash [] (t.keys.flatMap steps)

def shapeFault? (t : Tree α) : Option ShapeFault :=
  if t.isEmpty then some .empty
  else if t.contains Path.root then some .valueWithoutKey
  else match t.leafAndBranch? with
    | some (leaf, below) => some (.leafAndBranch leaf below)
    | none => t.objectAndArray?.map .objectAndArray

def ShapeFault.error (source : Option String) : ShapeFault → ConfigError
  | .empty => .emptyConfig source
  | .valueWithoutKey => .invalidConfig "value without key"
  | .leafAndBranch leaf below => .invalidConfig <|
    "'" ++ leaf.text ++ "' holds a value and is also the parent of '" ++ below.text ++ "'"
  | .objectAndArray place => .invalidConfig <|
    (if place.isRoot then ("the document root" : Text) else "'" ++ place.text ++ "'") ++
      " is used both as an object and as an array"

def validate (t : Tree α) (source : Option String) : Except ConfigError (Tree α) :=
  match t.shapeFault? with
  | some f => .error (f.error source)
  | none => .ok t

def shown (value : α → String) (t : Tree α) : String :=
  let entries := t.entries.map fun e => Text.quote e.1.text ++ ": " ++ value e.2
  "Properties(\x7b" ++ ", ".intercalate entries ++ "\x7d)"

end Tree

end LayeredConfig
