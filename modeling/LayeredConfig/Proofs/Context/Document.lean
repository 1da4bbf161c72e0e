import LayeredConfig.Context.Basic
import LayeredConfig.Proofs.Tree.Cycles
import LayeredConfig.Proofs.Tree.Gaps
import LayeredConfig.Proofs.Tree.Rebuild

/-!
# Contexts and their documents

A tree and the document that it describes, both ways. `walk_document`: the document of a tree,
walked again, stores the leaves of the tree and null in the gaps of its arrays. `document_walk`: a
document that was walked comes back without its parts that hold no scalar. Sharing containers makes
no difference to either.
-/

namespace LayeredConfig

-- ---------------------------------------------------------------------------
-- Shared containers
-- ---------------------------------------------------------------------------

namespace Graph

open Document

variable {P : Leaf → Prop} {g : Graph}

theorem not_proper_loop (c : Container) : ¬ (Document.scalar c.loop).Proper P := by
  rw [Proper]
  rintro ⟨v, h, -⟩
  cases c <;> cases h

/-- The walk over a value is the walk over the document that it unfolds to, where nothing had to be
cut off. -/
theorem flattenFrom_unfoldFrom (fuel : Nat) (ancestors : List Nat) (v : Value)
    (h : (g.unfoldFrom fuel ancestors v).Proper P) (path : Path) (found : Tree Leaf) :
    g.flattenFrom fuel ancestors path found v =
      (g.unfoldFrom fuel ancestors v).flattenAt path found := by
  induction fuel generalizing ancestors v path found with
  | zero =>
    cases v with
    | scalar s => rw [flattenFrom, unfoldFrom, flattenAt]
    | container n =>
      rw [unfoldFrom] at h
      exact absurd h (not_proper_loop _)
  | succ fuel ih =>
    cases v with
    | scalar s => rw [flattenFrom, unfoldFrom, flattenAt]
    | container n =>
      rw [unfoldFrom] at h ⊢
      rw [flattenFrom]
      split at h
      · exact absurd h (not_proper_loop _)
      · rename_i hn
        rw [if_neg hn, if_neg hn]
        cases hc : g.container n with
        | list items =>
          simp only [hc] at h ⊢
          rw [Proper, properItems_iff, List.forall_mem_map] at h
          rw [flattenAt]
          exact foldlM_zipIdx items 0 (fun v hv n found => ih _ v (h v hv) _ found) found
        | tuple items =>
          simp only [hc] at h
          rw [Proper] at h
          obtain ⟨v, hv, -⟩ := h
          cases hv
        | map fields =>
          simp only [hc] at h ⊢
          rw [Proper, properFields_iff, List.forall_mem_map] at h
          rw [flattenAt]
          refine foldlM_fields fields (fun e he found => ?_) found
          congr 1
          funext p
          exact ih _ e.2 (h.2 e he).2 p found

theorem flatten_unfold (h : g.unfold.Proper P) : g.flatten = g.unfold.flatten :=
  flattenFrom_unfoldFrom _ _ _ h _ _

end Graph

namespace Context

-- ---------------------------------------------------------------------------
-- From trees
-- ---------------------------------------------------------------------------

/-- A tree that is accepted and holds whole numbers of 64 bits has a document. Walking that
document, however its containers are shared, stores every leaf of the tree at its path, null in
every gap of an array, and nothing else. -/
theorem walk_document {c : Context} {source : Option String}
    (hvalid : c.tree.validate source = .ok c.tree) (hleaf : ∀ e ∈ c.tree.entries, e.2.Fits) :
    ∃ d u, c.document = .ok d ∧ d.flatten = .ok u ∧
      (∀ g : Graph, g.unfold = d → g.flatten = .ok u) ∧
      ∀ p v, u.get? p = some v ↔ c.tree.get? p = some v ∨ v = .null ∧ c.tree.Gap p := by
  have hw := (Tree.validate_ok_iff.1 hvalid).2
  obtain ⟨d, hd, hproper, -, hleaves⟩ := hw.nested_leaves (P := Leaf.Fits) trivial hleaf
  obtain ⟨u, hu, -⟩ := Document.flatten_proper (fun _ h => h) hproper
  refine ⟨d, u, hd, hu, ?_, fun p v => ?_⟩
  · rintro g rfl
    rw [Graph.flatten_unfold hproper, hu]
  · rw [Document.get?_flatten (fun _ h => h) hproper hu, hleaves]

/-- A tree as layers leave it: an array whose items come in no order and with gaps, and an array
inside another. -/
def scattered : Context :=
  ⟨OrderedMap.ofList [(⟨[.key "a", .index 2]⟩, .str "x"), (⟨[.key "b"]⟩, .null),
    (⟨[.key "a", .index 0, .index 1]⟩, .int 7)], .empty⟩

theorem walk_document_scattered :
    scattered.tree.validate none = .ok scattered.tree ∧
      (∀ e ∈ scattered.tree.entries, e.2.Fits) ∧
      ∃ d u, scattered.document = .ok d ∧ d.flatten = .ok u ∧
        u.get? ⟨[.key "a", .index 0, .index 1]⟩ = some (.int 7) ∧
        u.get? ⟨[.key "a", .index 0, .index 0]⟩ = some .null ∧
        u.get? ⟨[.key "a", .index 1]⟩ = some .null ∧
        u.get? ⟨[.key "a", .index 3]⟩ = none := by
  have hvalid : scattered.tree.validate none = .ok scattered.tree := rfl
  have hleaf : ∀ e ∈ scattered.tree.entries, e.2.Fits := by
    intro e he
    obtain rfl | rfl | rfl : e = _ ∨ e = _ ∨ e = _ := by
      simpa [scattered, OrderedMap.ofList, OrderedMap.insert, OrderedMap.put, OrderedMap.empty]
        using he
    · trivial
    · trivial
    · exact ⟨by decide, by decide⟩
  obtain ⟨d, u, hd, hu, -, hget⟩ := walk_document hvalid hleaf
  have hgap : ∀ {p v}, v = .null ∧ scattered.tree.Gap p → u.get? p = some v :=
    fun h => (hget _ _).2 (.inr h)
  refine ⟨hvalid, hleaf, d, u, hd, hu, (hget _ _).2 (.inl rfl), ?_, ?_, ?_⟩
  · exact hgap ⟨rfl, ⟨[.key "a", .index 0]⟩, 0, 1, rfl, by decide, by decide, by decide⟩
  · exact hgap ⟨rfl, ⟨[.key "a"]⟩, 1, 2, rfl, by decide, by decide, by decide⟩
  · cases hd
    cases hu
    decide

-- ---------------------------------------------------------------------------
-- From documents
-- ---------------------------------------------------------------------------

/-- A list or a mapping of named values, however its containers are shared, is walked, and the
document of its tree is the list or mapping itself without the parts that hold no scalar: such
fields are dropped, such items are dropped from the end of a list and are null before other items.
It is the empty mapping if there is no scalar at all. -/
theorem document_walk {d : Document} (hproper : d.Proper Leaf.Fits)
    (hcontainer : d.outermost?.isSome = true) :
    ∃ t, d.flatten = .ok t ∧ (∀ g : Graph, g.unfold = d → g.flatten = .ok t) ∧
      ∀ origins, (Context.mk t origins).document =
        .ok (if d.scalarCount = 0 then .map [] else d.pruned) := by
  obtain ⟨o, ho⟩ := Option.isSome_iff_exists.1 hcontainer
  obtain ⟨t, ht, -⟩ := Document.flatten_proper (fun _ h => h) hproper
  refine ⟨t, ht, ?_, fun origins => ?_⟩
  · rintro g rfl
    rw [Graph.flatten_unfold hproper, ht]
  · rw [document, Document.nested_flatten (fun _ h => h) hproper ho ht]
    simp only [Document.leaves_eq_nil_iff hproper]

/-- Empty containers as a field, as an item before others and at the end, and inside each other. -/
def hollow : Document :=
  .object [("s", .map []), ("a", .list [.int 1, .map [], .list [.str "x", .list []],
    .object [("z", .list [])]]), ("b", .null)]

theorem document_walk_hollow :
    hollow.Proper Leaf.Fits ∧ hollow.outermost?.isSome = true ∧
      ∃ t, hollow.flatten = .ok t ∧ ∀ origins, (Context.mk t origins).document =
        .ok (.object [("a", .list [.int 1, .null, .list [.str "x"]]), ("b", .null)]) := by
  have hproper : hollow.Proper Leaf.Fits := by
    simp [hollow, Document.object, Document.Proper, Document.ProperFields, Document.ProperItems,
      Document.int, Document.str, Document.null, Document.leaf, Scalar.str, Leaf.fits_int_iff]
    exact ⟨⟨rfl, trivial⟩, trivial⟩
  obtain ⟨t, ht, -, hdocument⟩ := document_walk hproper rfl
  exact ⟨hproper, rfl, t, ht, hdocument⟩

end Context

end LayeredConfig
