import LayeredConfig.Proofs.Context.Provenance

/-!
# Merging in parts

`ofLayers_parts`: layers may be merged in parts and the parts then merged, as merging is associative
down to the order of the entries. Trees and provenance go through the same argument: what a fold of
layers makes of a context is that context with the layers' own context over it.
-/

namespace LayeredConfig.Context

theorem foldl_overlay (c : Context) (layers : List Layer) :
    layers.foldl overlay c =
      ⟨c.tree.merge (ofLayers layers).tree, c.origins.merge (ofLayers layers).origins⟩ := by
  induction layers generalizing c with
  | nil => rfl
  | cons l rest ih =>
    have hfirst : ofLayers (l :: rest) = ⟨l.tree.merge (ofLayers rest).tree,
        l.origins.merge (ofLayers rest).origins⟩ := by
      rw [ofLayers, List.foldl_cons, ih]
      simp only [overlay, empty, OrderedMap.empty_merge]
    rw [List.foldl_cons, ih, hfirst]
    simp only [overlay, OrderedMap.merge_assoc]

theorem ofLayers_append (first second : List Layer) :
    ofLayers (first ++ second) = ⟨(ofLayers first).tree.merge (ofLayers second).tree,
      (ofLayers first).origins.merge (ofLayers second).origins⟩ := by
  rw [ofLayers, List.foldl_append]
  exact foldl_overlay _ _

/-- Merging trees is associative and idempotent with the empty tree as its unit, order included, and
trees without a common path may be merged either way as far as leaves go. The tree of layers stores
what some layer stores, with the leaf of the last one that does. However the layers are divided in
two, their tree and their provenance are those of the first part with those of the second merged
over them. -/
theorem ofLayers_parts :
    (∀ a b c : Tree Leaf, (a.merge b).merge c = a.merge (b.merge c)) ∧
    (∀ a : Tree Leaf, a.merge .empty = a ∧ OrderedMap.empty.merge a = a ∧ a.merge a = a) ∧
    (∀ a b : Tree Leaf, (∀ p ∈ a.keys, p ∉ b.keys) →
      ∀ p, (a.merge b).get? p = (b.merge a).get? p) ∧
    (∀ layers p, (ofLayers layers).tree.contains p = layers.any (·.stores p) ∧
      (ofLayers layers).tree.get? p = (lastStoring layers p).bind (·.tree.get? p)) ∧
    ∀ first second, ofLayers (first ++ second) =
      ⟨(ofLayers first).tree.merge (ofLayers second).tree,
        (ofLayers first).origins.merge (ofLayers second).origins⟩ := by
  refine ⟨OrderedMap.merge_assoc, fun a => ?_, fun a b h p => OrderedMap.get?_merge_comm h p,
    fun layers p => ⟨contains_ofLayers layers p, get?_ofLayers layers p⟩, ofLayers_append⟩
  exact ⟨a.merge_empty, a.empty_merge, a.merge_self⟩

theorem ofLayers_parts_apart :
    (∀ p ∈ nestedLayer.tree.keys, p ∉ dottedLayer.tree.keys) ∧
      ∀ p, (nestedLayer.tree.merge dottedLayer.tree).get? p =
        (dottedLayer.tree.merge nestedLayer.tree).get? p := by
  have hapart : ∀ p ∈ nestedLayer.tree.keys, p ∉ dottedLayer.tree.keys := by decide
  exact ⟨hapart, ofLayers_parts.2.2.1 _ _ hapart⟩

end LayeredConfig.Context
