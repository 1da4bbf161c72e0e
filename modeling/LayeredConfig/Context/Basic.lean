import LayeredConfig.Tree.Flatten
import LayeredConfig.Tree.Nested
import LayeredConfig.Tree.Shape

/-!
# Contexts

A loaded configuration: its tree, and for every path as text where the leaf came from. Keys are
paths as text throughout.
-/

namespace LayeredConfig

/-- Where a leaf came from. Values that came from no file have no path, and only overlays have a
profile. -/
structure Origin where
  profile : Option String
  path : Option String
  key : Text
  deriving DecidableEq, Repr

abbrev Provenance := OrderedMap Text Origin

structure Context where
  tree : Tree Leaf
  origins : Provenance
  deriving Repr

namespace Context

def empty : Context := ⟨OrderedMap.empty, OrderedMap.empty⟩

instance : Inhabited Context := ⟨empty⟩

def lookup (c : Context) (key : Text) : Except Failure Leaf := do
  match c.tree.get? (← Path.read key) with
  | some v => return v
  | none => throw (.config (.pathNotFound key))

/-- The answer of an operation, or a default where the key is malformed or absent or the leaf has
another kind. -/
def orElse {α : Type} (answer : Except Failure α) (default : α) : Except Failure α :=
  match answer with
  | .ok v => .ok v
  | .error e => if e.isLookup then .ok default else .error e

def contains (c : Context) (key : Text) : Except Failure Bool :=
  orElse ((c.lookup key).map fun _ => true) false

/-- The keys of the context, in the order of its tree. -/
def keys (c : Context) : List Text := c.tree.keys.map Path.text

def origin (c : Context) (key : Text) : Except Failure (Option Origin) := do
  return c.origins.get? (← Path.read key).text

def document (c : Context) : Except Fault Document := c.tree.nested

end Context

end LayeredConfig
