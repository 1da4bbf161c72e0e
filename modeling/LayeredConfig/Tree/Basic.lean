import LayeredConfig.Leaf
import LayeredConfig.OrderedMap
import LayeredConfig.Path.Basic

/-!
# Trees

A configuration as a flat map from paths to values, in insertion order. Composite structure is
implied by the paths and stored nowhere, so laying one configuration over another is writing the
entries of the second into the first.
-/

namespace LayeredConfig

/-- A configuration whose values are of type `α`; loaded configurations hold leaves. -/
abbrev Tree (α : Type) := OrderedMap Path α

namespace Tree

variable {α : Type}

def under (t : Tree α) (p : Path) : List Path :=
  t.keys.filter fun q => q = p || p.isAbove q

/-- Whether the outermost container is an array: some path starts with a position. -/
def startsWithIndex (t : Tree α) : Bool :=
  t.keys.any fun p => p.segments.head?.any Segment.isIndex

end Tree

end LayeredConfig
