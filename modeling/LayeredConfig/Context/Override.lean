import LayeredConfig.Context.Basic

/-!
# Overrides

Values laid over a context from inside the program. A value may be a whole document, which is then
flattened below its key. The result has to describe a document again.
-/

namespace LayeredConfig.Context

/-- The values by path. Two keys that spell the same path are one. -/
def readOverrides {α : Type} : List (Text × α) → OrderedMap Path α →
    Except Failure (OrderedMap Path α)
  | [], found => .ok found
  | (key, value) :: rest, found => do
    readOverrides rest (found.insert (← Path.read key) value)

def leavesOf (values : OrderedMap Path Graph) : Except Failure (Tree Leaf) :=
  values.entries.foldlM (fun found e => do
    let below ← e.2.flatten
    return below.entries.foldl (fun found f => found.insert (e.1 ++ f.1) f.2) found)
    OrderedMap.empty

/-- The context with values written over it. Their leaves come from no file. -/
def override (c : Context) (values : List (Text × Graph)) : Except Failure Context := do
  let written ← leavesOf (← readOverrides values OrderedMap.empty)
  let tree ← (Tree.validate (c.tree.merge written) none).mapError Failure.config
  let origins := written.keys.foldl (fun found p =>
    found.insert p.text ⟨none, none, p.text⟩) c.origins
  return ⟨tree, origins⟩

end LayeredConfig.Context
