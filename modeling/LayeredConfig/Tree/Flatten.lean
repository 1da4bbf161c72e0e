import LayeredConfig.Document.Graph
import LayeredConfig.Path.Text
import LayeredConfig.Tree.Basic

/-!
# Documents as trees

Walks a document depth first and stores each scalar at the path that leads to it. Mappings add the
text of the key, lists the position. Empty containers leave nothing. In a graph, a container met on
the way down from itself ends the walk with an error.
-/

namespace LayeredConfig

/-- The leaf that a scalar becomes at `path`. Dates and times become texts. -/
def Scalar.toLeaf (path : Path) : Scalar → Except Failure Leaf
  | .leaf (.int n) =>
    if Leaf.inRange n then .ok (.int n)
    else do
      let digits ← (Scalar.integerText n).mapError Failure.fault
      throw <| .config <| .invalidStructure <|
        "integer at '" ++ path.text ++ "' does not fit in 64 bits: " ++ digits
  | .leaf v => .ok v
  | .moment m => .ok (.str m.iso)
  | .foreign typeName _ _ =>
    .error <| .config <| .invalidStructure <|
      "unsupported value at '" ++ path.text ++ "': " ++ typeName

namespace Document

def fieldPath (path : Path) (key : Scalar) : Except Failure Path := do
  return path.key (← key.keyText.mapError Failure.fault)

mutual

def flattenAt (path : Path) (found : Tree Leaf) : Document → Except Failure (Tree Leaf)
  | .scalar s => do return found.insert path (← s.toLeaf path)
  | .list items => flattenItems path 0 found items
  | .map fields => flattenFields path found fields

def flattenItems (path : Path) (position : Nat) (found : Tree Leaf) :
    List Document → Except Failure (Tree Leaf)
  | [] => .ok found
  | d :: rest => do
    let found ← d.flattenAt (path.index position) found
    flattenItems path (position + 1) found rest

def flattenFields (path : Path) (found : Tree Leaf) :
    List (Scalar × Document) → Except Failure (Tree Leaf)
  | [] => .ok found
  | (k, d) :: rest => do
    let found ← d.flattenAt (← fieldPath path k) found
    flattenFields path found rest

end

def flatten (d : Document) : Except Failure (Tree Leaf) :=
  d.flattenAt Path.root OrderedMap.empty

end Document

namespace Graph

def recursive (path : Path) : Failure :=
  .config (.invalidStructure ("recursive reference at '" ++ path.text ++ "'"))

/-- Adds the leaves of a value at `path` to those found so far. `ancestors` are the containers
around the value; `fuel` bounds their number, which the number of containers does too. -/
def flattenFrom (g : Graph) :
    (fuel : Nat) → (ancestors : List Nat) → Path → Tree Leaf → Value → Except Failure (Tree Leaf)
  | _, _, path, found, .scalar s => do return found.insert path (← s.toLeaf path)
  | 0, _, path, _, .container _ => .error (recursive path)
  | fuel + 1, ancestors, path, found, .container n =>
    if ancestors.contains n then .error (recursive path)
    else match g.container n with
      | .list items | .tuple items =>
        items.zipIdx.foldlM (fun found (item, position) =>
          g.flattenFrom fuel (n :: ancestors) (path.index position) found item) found
      | .map fields =>
        fields.foldlM (fun found (key, value) => do
          g.flattenFrom fuel (n :: ancestors) (← Document.fieldPath path key) found value) found

def flatten (g : Graph) : Except Failure (Tree Leaf) :=
  g.flattenFrom (g.containers.size + 1) [] Path.root OrderedMap.empty g.root

end Graph

end LayeredConfig
