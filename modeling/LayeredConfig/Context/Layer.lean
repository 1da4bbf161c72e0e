import LayeredConfig.Context.Basic

/-!
# Layers

A context from layers: each layer's leaves go over those of the layers before it, and provenance
names the last layer that supplied a leaf.
-/

namespace LayeredConfig

structure Layer where
  profile : Option String
  tree : Tree Leaf
  path : Option String
  deriving Repr

def Layer.origins (l : Layer) : Provenance :=
  OrderedMap.ofList <| l.tree.keys.map fun p => (p.text, ⟨l.profile, l.path, p.text⟩)

namespace Context

def ofLayer (l : Layer) : Context := ⟨l.tree, l.origins⟩

def overlay (c : Context) (l : Layer) : Context :=
  ⟨c.tree.merge l.tree, c.origins.merge l.origins⟩

def ofLayers (layers : List Layer) : Context := layers.foldl overlay empty

end Context

end LayeredConfig
